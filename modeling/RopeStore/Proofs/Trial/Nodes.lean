import Mathlib.Data.List.Basic
import Mathlib.Data.List.Nodup
import RopeStore.Proofs.Table
import RopeStore.Proofs.Trial.Mirror
import RopeStore.Proofs.Trial.Steps

/-!
# The nodes of a trial

* `Nodes s lives` : nothing but the references of the nodes `lives` keeps the heap of the trial alive,
  and the keys that it waits for are those that the heap lends or has just given back;
* `Nodes.ends_onHeap` : an operation on nodes, seen from the trial; `Nodes.ends_release`,
  `Nodes.ends_insertNode` : the two that most operations of a trial end with;
* `State.Agrees` : a node is as the trial expects, and its count is the number of known references;
* `run_checkPart` : a part shares what it should;
* `Nodes.run_checkNodes`, `Nodes.ends_checkReleases` : the checks of nodes and releases hold.
-/

namespace RopeStore.Trial
variable {α : Type} {s : State} {live : LiveNode} {lives : List LiveNode}

/-- The references of `lives` are all that keeps the heap alive. The keys that are waited for are those
that the heap lends and those that it gave back since the last check. -/
structure Nodes (s : State) (lives : List LiveNode) : Prop where
  quiet : s.heap.notices = []
  lent : ∃ keys, Mirrors s.heap lives keys ∧ s.unreleased.Perm (s.released ++ keys)
  once : s.unreleased.Nodup
  known : ∀ key ∈ s.unreleased, key ≤ s.lastKey

/-- A node is as expected, and its count is the number of references to it that are known. -/
structure State.Agrees (s : State) (live : LiveNode) : Prop where
  length : s.heap.length live.node = .ok live.expected.length
  bytes : s.heap.bytes live.node = .ok live.expected
  count : ∃ n, s.heap.node live.node = .ok n ∧ n.refs.get = s.referencesTo live.node ∧
    n.refs.isOne = decide (s.referencesTo live.node = 1)

theorem childOf?_eq (h : Heap Nat) (id : NodeId) : childOf? h id = h.child? id := by
  unfold childOf? Heap.child? Heap.body?
  cases h.find? id <;> rfl

theorem run_kindOf {b : Body Nat} {kind : NodeKind} {id : NodeId} (hb : s.heap.body? id = some b)
    (hkind : b.kind = .ok kind) : (kindOf id).run s = .ok kind s := by
  unfold kindOf
  rw [run_bind_of_run_eq_ok (run_readHeap (Heap.body_eq_ok hb))]
  exact run_orFail hkind

/-- What is sound has a kind, and so a text. -/
theorem describe_eq_ok {h : Heap Nat} {held : List NodeId} {id : NodeId} {n : Node Nat}
    (ho : Owned h held) (hn : h.find? id = some n) : ∃ text, h.describe id = .ok text := by
  have hs := ho.sound_of_find? hn
  unfold Heap.describe
  rw [Heap.node_eq_ok_iff.2 hn]
  obtain ⟨refs, body⟩ := n
  cases body with
  | malformed tag length => exact hs.elim
  | _ => exact ⟨_, rfl⟩

theorem exists_kind_base {h : Heap Nat} {held : List NodeId} {id : NodeId} {b : Body Nat}
    (ho : Owned h held) (hb : h.body? id = some b) :
    ∃ c kind, h.body? (h.base id) = some c ∧ c.kind = .ok kind ∧ kind ≠ .view := by
  obtain ⟨c, data, hc, hflat, -⟩ := Heap.body?_base ho hb
  have hs := ho.sound hc
  cases c with
  | buffer tag bytes => exact ⟨_, .buffer, hc, rfl, by simp⟩
  | external bytes keeper => exact ⟨_, .external, hc, rfl, by simp⟩
  | view start length child => cases hflat
  | malformed tag length => exact hs.elim

/-- A whole part is its source, and every other one is a view over the node that holds the bytes. -/
theorem run_checkPart {held : List NodeId} {source part : NodeId} {b : Body Nat} {whole : Bool}
    (ho : Owned s.heap held) (hb : s.heap.body? source = some b)
    (hpart : if whole = true then part = source
      else s.heap.child? part = some (s.heap.base source)) :
    (checkPart source part whole).run s = .ok () s := by
  unfold checkPart
  cases whole with
  | true => exact run_ensure_beq hpart _
  | false =>
    obtain ⟨c, kind, hc, hkind, hne⟩ := exists_kind_base ho hb
    have hunderlying : s.heap.base source = (childOf? s.heap source).getD source := by
      rw [childOf?_eq]
      rfl
    rw [if_neg Bool.false_ne_true] at hpart ⊢
    rw [run_bind_of_run_eq_ok (EStateM.run_get s), childOf?_eq, hpart]
    show (kindOf _ >>= _ : TrialM Unit).run s = _
    rw [run_bind_of_run_eq_ok (run_kindOf hc hkind),
      run_bind_of_run_eq_ok (run_ensure (bne_iff_ne.2 hne) _),
      run_bind_of_run_eq_ok (EStateM.run_get s)]
    exact run_ensure_beq hunderlying _

namespace Nodes

theorem perm {lives' : List LiveNode} (hn : Nodes s lives) (hp : lives.Perm lives') :
    Nodes s lives' where
  quiet := hn.quiet
  lent := by
    obtain ⟨keys, hm, hkeys⟩ := hn.lent
    exact ⟨keys, hm.perm hp, hkeys⟩
  once := hn.once
  known := hn.known

/-! ## Operations -/

/-- What the heap tells is what it no longer lends. -/
theorem settled {lives' : List LiveNode} {keys keys' : List Nat} {h : Heap Nat}
    {told : List (Notice Nat)} (hn : Nodes s lives) (hkeys : s.unreleased.Perm (s.released ++ keys))
    (hm : Mirrors h lives' keys') (hnotices : h.notices = s.heap.notices ++ told)
    (hperm : keys.Perm (told.filterMap Notice.owner? ++ keys')) (lines : Array Line) :
    Nodes (s.settled h lines) lives' where
  quiet := rfl
  lent := by
    refine ⟨keys', hm.congr rfl, ?_⟩
    show s.unreleased.Perm ((s.released ++ h.notices.filterMap Notice.owner?) ++ keys')
    rw [hnotices, hn.quiet, List.nil_append, List.append_assoc]
    exact hkeys.trans (hperm.append_left _)
  once := hn.once
  known := hn.known

/-- An operation that tells what it no longer lends keeps the account of the keys. -/
theorem ends_onHeap {op : HeapM Nat α} (good : α → Heap Nat → Prop) (lives' : α → List LiveNode)
    (hn : Nodes s lives)
    (hop : ∀ keys, Mirrors s.heap lives keys → Ends op s.heap fun a h => good a h ∧
      ∃ told keys', Mirrors h (lives' a) keys' ∧ h.notices = s.heap.notices ++ told ∧
        keys.Perm (told.filterMap Notice.owner? ++ keys')) :
    Ends (onHeap op) s fun a t =>
      ∃ h lines, t = s.settled h lines ∧ good a h ∧ Nodes t (lives' a) := by
  obtain ⟨keys, hm, hkeys⟩ := hn.lent
  apply (Trial.ends_onHeap (hop keys hm)).mono
  intro a _ hafter
  obtain ⟨h, lines, ⟨hgood, told, keys', hm', hnotices, hperm⟩, rfl⟩ := hafter
  exact ⟨h, lines, rfl, hgood, hn.settled hkeys hm' hnotices hperm lines⟩

theorem ends_onHeap_of_quiet {op : HeapM Nat α} (good : α → Heap Nat → Prop)
    (lives' : α → List LiveNode) (hn : Nodes s lives)
    (hop : ∀ keys, Mirrors s.heap lives keys → Ends op s.heap fun a h => good a h ∧
      h.notices = s.heap.notices ∧ Mirrors h (lives' a) keys) :
    Ends (onHeap op) s fun a t =>
      ∃ h lines, t = s.settled h lines ∧ good a h ∧ Nodes t (lives' a) := by
  refine hn.ends_onHeap good lives' fun keys hm => (hop keys hm).mono ?_
  intro a h hafter
  obtain ⟨hgood, hnotices, hm'⟩ := hafter
  exact ⟨hgood, [], keys, hm', by rw [hnotices, List.append_nil], List.Perm.refl _⟩

theorem ends_release (hn : Nodes s (live :: lives))
    (hfew : (live :: lives).length < RefCount.bound) :
    Ends (onHeap (Heap.release live.node)) s fun _ t =>
      ∃ h lines, t = s.settled h lines ∧ Nodes t lives := by
  refine (hn.ends_onHeap (fun _ _ => True) (fun _ => lives) fun keys hm => ?_).mono ?_
  · exact (hm.ends_release hfew).mono fun _ _ hgood => ⟨trivial, hgood⟩
  · intro _ t hafter
    obtain ⟨h, lines, ht, -, hn'⟩ := hafter
    exact ⟨h, lines, ht, hn'⟩

theorem ends_releaseAll (hn : Nodes s lives) (hfew : lives.length < RefCount.bound) :
    Ends (lives.forM fun live => onHeap (Heap.release live.node)) s fun _ t =>
      (∃ heap released log, t = { s with heap, released, log }) ∧ Nodes t [] := by
  refine (ends_forM (fun rest t => rest.length ≤ lives.length ∧
    (∃ heap released log, t = { s with heap, released, log }) ∧ Nodes t rest)
    ⟨Nat.le_refl _, ⟨_, _, _, rfl⟩, hn⟩ ?_).mono fun _ t ht => ht.2
  intro live rest _ ht
  obtain ⟨hle, ⟨heap, released, log, rfl⟩, hn'⟩ := ht
  apply (hn'.ends_release (Nat.lt_of_le_of_lt hle hfew)).mono
  intro _ t' ht'
  obtain ⟨h, lines, rfl, hn''⟩ := ht'
  exact ⟨Nat.le_of_succ_le hle, ⟨_, _, _, rfl⟩, hn''⟩

/-- A node takes its number, and the one that had it gives up its reference. -/
theorem ends_insertNode (hn : Nodes s (live :: s.nodes.values)) (hsorted : s.nodes.Sorted)
    (hfew : (live :: s.nodes.values).length < RefCount.bound) (id : UInt32) :
    Ends (insertNode id live) s fun _ t => (∃ heap released log, t =
      { s with heap, released, log, nodes := s.nodes.insert id live }) ∧
      Nodes t (s.nodes.insert id live).values := by
  obtain ⟨keys, hm, -⟩ := hn.lent
  obtain ⟨n, hnode, -⟩ := hm.body?_of_mem List.mem_cons_self
  obtain ⟨text, htext⟩ := describe_eq_ok hm.owned hnode
  unfold insertNode
  rw [ends_bind_of_run_eq_ok (run_readHeap htext), ends_bind_log, ends_bind_get, ends_bind_modify]
  cases hold : s.nodes.get? id with
  | none =>
    refine ⟨⟨_, _, _, rfl⟩, ?_⟩
    exact { hn.perm (hsorted.values_insert_perm_of_get?_eq_none hold live).symm with }
  | some old =>
    have hswap := (hsorted.values_insert_perm_of_get? hold live).symm
    have hn' := hn.perm hswap
    rw [hswap.length_eq] at hfew
    refine Ends.mono (ends_release { hn' with } hfew) ?_
    intro _ _ hafter
    obtain ⟨h, lines, rfl, hn''⟩ := hafter
    exact ⟨⟨_, _, _, rfl⟩, hn''⟩

/-! ## Checks -/

theorem referencesTo_eq (hn : Nodes s s.nodes.values) (target : NodeId) :
    s.referencesTo target =
      (s.nodes.values.map (·.node)).count target + s.heap.viewsOver target := by
  obtain ⟨keys, hm, -⟩ := hn.lent
  rw [hm.owned.viewsOver_eq]
  unfold State.referencesTo Heap.views
  simp only [childOf?_eq]

/-- **The nodes are as the model expects.** -/
theorem agrees (hn : Nodes s s.nodes.values) (hfew : s.nodes.values.length < RefCount.bound)
    (hlive : live ∈ s.nodes.values) : s.Agrees live := by
  have hrefs := hn.referencesTo_eq live.node
  obtain ⟨keys, hm, -⟩ := hn.lent
  obtain ⟨n, hnode, hcount, hbound⟩ := hm.refs hfew hlive
  obtain ⟨-, -, -, hlen⟩ := hm.body?_of_mem hlive
  have hb := Heap.body?_of_find? hnode
  obtain ⟨data, hdata, hbytes, hlength⟩ := Heap.bytes_eq_ok hm.owned hb
  rw [(hm.faithful live hlive).content] at hdata
  cases hdata
  refine ⟨?_, hbytes, n, Heap.node_eq_ok_iff.2 hnode, ?_, ?_⟩
  · rw [Heap.length_eq_ok hb, hlength]
  · rw [hcount, hrefs, RefCount.get_ofNat hbound]
  · rw [hcount, hrefs, RefCount.isOne_ofNat hbound]

theorem run_checkNode (ha : s.Agrees live) (id : UInt32) :
    (checkNode id live).run s = .ok () s := by
  obtain ⟨n, hnode, hget, -⟩ := ha.count
  unfold checkNode
  rw [run_bind_of_run_eq_ok (run_readHeap ha.length), run_bind_of_run_eq_ok (run_ensure_beq rfl _),
    run_bind_of_run_eq_ok (run_readHeap ha.bytes), run_bind_of_run_eq_ok (run_ensure_beq rfl _),
    run_bind_of_run_eq_ok (EStateM.run_get s), run_bind_of_run_eq_ok (run_readHeap hnode)]
  exact run_ensure_beq hget _

theorem run_checkNodes (hn : Nodes s s.nodes.values)
    (hfew : s.nodes.values.length < RefCount.bound) : checkNodes.run s = .ok () s := by
  unfold checkNodes
  rw [run_bind_of_run_eq_ok (EStateM.run_get s)]
  apply run_forM
  rintro ⟨id, live⟩ hentry
  exact run_checkNode (hn.agrees hfew (List.mem_map_of_mem hentry)) id

/-- What the heap gave back is not reachable and is waited for no longer, and all else that is waited
for is reachable. -/
theorem ends_checkReleases (hn : Nodes s s.nodes.values) :
    Ends checkReleases s fun _ t => (∃ unreleased log, t =
      { s with unreleased, log, released := [] }) ∧ Nodes t s.nodes.values := by
  obtain ⟨keys, hm, hkeys⟩ := hn.lent
  have hreachable : ∀ key, (s.nodes.values.filterMap (·.external)).contains key = true ↔
      key ∈ keys := by
    intro key
    rw [List.contains_iff_mem, List.mem_filterMap, hm.mem_keys_iff]
  unfold checkReleases
  rw [ends_bind_get, ends_bind_get, ends_bind_modify]
  refine Ends.bind (ends_forM (fun rest t => ∃ unreleased log,
      t = { s with unreleased, log, released := [] } ∧ unreleased.Perm (rest ++ keys) ∧
        unreleased.Nodup ∧ ∀ key ∈ unreleased, key ≤ s.lastKey)
    ⟨s.unreleased, s.log, rfl, hkeys, hn.once, hn.known⟩ ?_) ?_
  · intro key rest _ hafter
    obtain ⟨unreleased, log, rfl, hperm, honce, hknown⟩ := hafter
    have hmem : key ∈ unreleased := hperm.mem_iff.2 (List.mem_append_left _ List.mem_cons_self)
    have hgone : key ∉ keys := by
      have hnodup := hperm.nodup_iff.1 honce
      rw [List.cons_append, List.nodup_cons] at hnodup
      exact fun hin => hnodup.1 (List.mem_append_right _ hin)
    rw [ends_bind_log, ends_bind_get,
      ends_bind_of_run_eq_ok (run_ensure (List.contains_iff_mem.2 hmem) _), ends_bind_modify]
    refine ends_of_run_eq_ok (run_ensure ?_ _) ⟨unreleased.erase key, _, rfl, ?_,
      honce.erase key, fun k hk => hknown k (List.mem_of_mem_erase hk)⟩
    · rw [Bool.not_eq_true', Bool.eq_false_iff]
      exact fun hin => hgone ((hreachable key).1 hin)
    · exact (hperm.erase key).trans (by rw [List.cons_append, List.erase_cons_head])
  · intro _ _ hafter
    obtain ⟨unreleased, log, rfl, hperm, honce, hknown⟩ := hafter
    rw [List.nil_append] at hperm
    rw [ends_bind_get]
    refine ends_of_run_eq_ok (run_forM fun key hkey => ?_) ⟨⟨unreleased, log, rfl⟩, ?_⟩
    · exact run_ensure ((hreachable key).2 (hperm.mem_iff.1 hkey)) _
    · exact ⟨hn.quiet, ⟨keys, hm, hperm⟩, honce, hknown⟩

end Nodes
end RopeStore.Trial
