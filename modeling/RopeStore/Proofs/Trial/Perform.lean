import Mathlib.Algebra.Order.BigOperators.Group.List
import Mathlib.Algebra.Order.Group.Nat
import Mathlib.Data.List.Basic
import RopeStore.Proofs.Trial.Nodes
import RopeStore.Proofs.Trial.Watch

/-!
# One operation of a trial

* `Sound n s` : after `n` operations, the heap and the queue of the trial are as it expects, and its
  counters are far from full;
* `Sound.withNodes`, `Sound.withEntries` : an operation changes either the nodes or the entries;
* `Sound.ends_perform` : every operation ends well and keeps all of that.
-/

namespace RopeStore.Trial
open Deferral (EntryId Chronicle Kept Queue)
variable {s t : State} {n : Nat}

/-- After `n` operations, nodes and entries are as expected, and each operation has made at most one
of each. -/
structure Sound (n : Nat) (s : State) : Prop where
  nodes : Nodes s s.nodes.values
  entries : ∃ xs c, Noted s s.snapshots.values s.handles.values xs c
  nodesSorted : s.nodes.Sorted
  snapshotsSorted : s.snapshots.Sorted
  handlesSorted : s.handles.Sorted
  clock : s.clock ≤ n
  lastKey : s.lastKey ≤ n
  fewNodes : s.nodes.values.length ≤ n
  fewHandles : s.handles.values.length ≤ n

theorem sound_initial : Sound 0 .initial where
  nodes := by
    refine ⟨rfl, ⟨[], mirrors_initial, .refl _⟩, List.nodup_nil, ?_⟩
    exact fun _ hkey => absurd hkey List.not_mem_nil
  entries := ⟨[], .empty, noted_initial⟩
  nodesSorted := Table.sorted_empty
  snapshotsSorted := Table.sorted_empty
  handlesSorted := Table.sorted_empty
  clock := Nat.le_refl _
  lastKey := Nat.le_refl _
  fewNodes := Nat.le_refl _
  fewHandles := Nat.le_refl _

namespace Sound

theorem succ (hs : Sound n s) : Sound (n + 1) s where
  nodes := hs.nodes
  entries := hs.entries
  nodesSorted := hs.nodesSorted
  snapshotsSorted := hs.snapshotsSorted
  handlesSorted := hs.handlesSorted
  clock := Nat.le_succ_of_le hs.clock
  lastKey := Nat.le_succ_of_le hs.lastKey
  fewNodes := Nat.le_succ_of_le hs.fewNodes
  fewHandles := Nat.le_succ_of_le hs.fewHandles

/-- What happens to nodes leaves the entries alone. -/
theorem withNodes (hs : Sound n s) {heap : Heap Nat} {nodes : Table UInt32 LiveNode}
    {unreleased released : List Nat} {lastKey : Nat} {log : Array Line}
    (hn : Nodes { s with heap, nodes, unreleased, released, lastKey, log } nodes.values)
    (hsorted : nodes.Sorted) (hfew : nodes.values.length ≤ n + 1) (hkey : s.lastKey ≤ lastKey)
    (hkey' : lastKey ≤ n + 1) :
    Sound (n + 1) { s with heap, nodes, unreleased, released, lastKey, log } where
  nodes := hn
  entries := by
    obtain ⟨xs, c, hq⟩ := hs.entries
    exact ⟨xs, c, { hq with known := fun p hp => Nat.le_trans (hq.known p hp) hkey }⟩
  nodesSorted := hsorted
  snapshotsSorted := hs.snapshotsSorted
  handlesSorted := hs.handlesSorted
  clock := Nat.le_succ_of_le hs.clock
  lastKey := hkey'
  fewNodes := hfew
  fewHandles := Nat.le_succ_of_le hs.fewHandles

/-- What happens to entries leaves the nodes alone. -/
theorem withEntries (hs : Sound n s) {queue : Queue Nat} {snapshots : Table UInt32 (EntryId × Nat)}
    {handles : Table UInt32 EntryId} {deleted : List DeletedHandle} {clock lastKey : Nat}
    {dropped : List Nat} {log : Array Line} {xs : List EntryId} {c : Chronicle Nat}
    (hq : Noted { s with queue, snapshots, handles, deleted, clock, lastKey, dropped, log }
      snapshots.values handles.values xs c)
    (hsnapshots : snapshots.Sorted) (hhandles : handles.Sorted) (hclock : clock ≤ n + 1)
    (hfew : handles.values.length ≤ n + 1) (hkey : s.lastKey ≤ lastKey) (hkey' : lastKey ≤ n + 1) :
    Sound (n + 1) { s with queue, snapshots, handles, deleted, clock, lastKey, dropped, log } where
  nodes := { hs.nodes with known := fun key hk => Nat.le_trans (hs.nodes.known key hk) hkey }
  entries := ⟨xs, c, hq⟩
  nodesSorted := hs.nodesSorted
  snapshotsSorted := hsnapshots
  handlesSorted := hhandles
  clock := hclock
  lastKey := hkey'
  fewNodes := Nat.le_succ_of_le hs.fewNodes
  fewHandles := hfew

/-- An operation that does nothing was not performed. -/
def Performs (n : Nat) (s : State) (did : Bool) (t : State) : Prop :=
  Sound (n + 1) t ∧ (did = false → t = s)

theorem performs_nothing (hs : Sound n s) : Performs n s false s := ⟨hs.succ, fun _ => rfl⟩

theorem performs_true (ht : Sound (n + 1) t) : Performs n s true t := ⟨ht, by simp⟩

/-- The events so far and those that the live handles are good for can be counted. -/
theorem events_lt (hs : Sound n s) (hroom : n < RefCount.bound) {snaps : List (EntryId × Nat)}
    {handles xs : List EntryId} {c : Chronicle Nat} (hq : Noted s snaps handles xs c) :
    c.events.length + s.handles.values.length < wordBound := by
  have hwords : RefCount.bound + RefCount.bound ≤ wordBound := by decide
  have hclock := hs.clock
  have hfew := hs.fewHandles
  rw [hq.clock] at hclock
  omega

/-! ## Nodes -/

theorem payload_add_lt (hs : Sound n s) (hroom : n < RefCount.bound) {length : Nat}
    (hlength : length ≤ SizeClass.maxLargeSize) : s.payload + length < wordBound := by
  have hword : RefCount.bound * SizeClass.maxLargeSize + SizeClass.maxLargeSize < wordBound := by
    decide
  have hfew := Nat.le_trans hs.fewNodes (Nat.le_of_lt hroom)
  obtain ⟨keys, hm, -⟩ := hs.nodes.lent
  have hsum : s.payload ≤ s.nodes.values.length * SizeClass.maxLargeSize := by
    rw [State.payload, ← List.length_map (f := fun live : LiveNode => live.expected.length)]
    refine List.sum_le_card_nsmul _ _ fun len hlen => ?_
    obtain ⟨live, hlive, rfl⟩ := List.mem_map.1 hlen
    exact (hm.faithful live hlive).short
  have hmul := Nat.mul_le_mul_right SizeClass.maxLargeSize hfew
  omega

/-- What the limit is asked about is never too much to count. -/
theorem run_exceeds (hs : Sound n s) (hroom : n < RefCount.bound) (limit : Nat)
    (length : UInt16) : (exceeds limit length.toNat).run s =
      .ok (decide (limit < s.payload + length.toNat)) s := by
  have hmax : UInt16.size ≤ SizeClass.maxLargeSize := by decide
  have hlength := length.toNat_lt_size
  exact Trial.run_exceeds (hs.payload_add_lt hroom (by omega)) limit

theorem ends_insertNode (hs : Sound n s) (hroom : n + 1 < RefCount.bound) {heap : Heap Nat}
    {unreleased released : List Nat} {lastKey : Nat} {lines : Array Line} {live : LiveNode}
    (hn : Nodes { s with heap, unreleased, released, lastKey, log := lines } (live :: s.nodes.values))
    (hkey : s.lastKey ≤ lastKey) (hkey' : lastKey ≤ n + 1) (id : UInt32) :
    Ends (do insertNode id live; return true)
      { s with heap, unreleased, released, lastKey, log := lines } (Performs n s) := by
  have hfew : (live :: s.nodes.values).length < RefCount.bound :=
    Nat.lt_of_le_of_lt (Nat.succ_le_succ hs.fewNodes) hroom
  apply (hn.ends_insertNode hs.nodesSorted hfew id).bind
  intro _ t ht
  obtain ⟨⟨heap', released', log, rfl⟩, hn'⟩ := ht
  refine performs_true (hs.withNodes hn' (hs.nodesSorted.insert id live) ?_ hkey hkey')
  exact Nat.le_trans (hs.nodesSorted.length_values_insert_le id live) (Nat.succ_le_succ hs.fewNodes)

theorem ends_newBuffer (hs : Sound n s) (hroom : n + 1 < RefCount.bound) (limit : Nat) (id : UInt32)
    (length : UInt16) (fill : UInt8) :
    Ends ((Op.newBuffer id length fill).perform limit) s (Performs n s) := by
  have hmax : UInt16.size ≤ SizeClass.maxLargeLength := by decide
  have hlength := length.toNat_lt_size
  unfold Op.perform
  rw [ends_bind_of_run_eq_ok (hs.run_exceeds (Nat.lt_of_succ_lt hroom) limit length)]
  cases decide (limit < s.payload + length.toNat) with
  | true => exact hs.performs_nothing
  | false =>
    rw [if_neg Bool.false_ne_true]
    have hdata : (List.replicate length.toNat fill).length ≤ SizeClass.maxLargeLength := by
      rw [List.length_replicate]
      omega
    generalize List.replicate length.toNat fill = data at hdata ⊢
    refine (hs.nodes.ends_onHeap_of_quiet
      (fun node h => ∃ tag, h.body? node = some (.buffer tag data))
      (fun node => ⟨node, data, none⟩ :: s.nodes.values) fun keys hm => ?_).bind fun node t ht => ?_
    · obtain ⟨h', hrun, hnotices, hbody, hm'⟩ := hm.copy hdata
      exact ends_of_run_eq_ok hrun ⟨hbody, hnotices, hm'⟩
    · obtain ⟨h, lines, rfl, ⟨tag, hbody⟩, hn⟩ := ht
      rw [ends_bind_of_run_eq_ok (run_kindOf (s := s.settled h lines) hbody rfl),
        ends_bind_of_run_eq_ok (run_ensure_beq rfl _)]
      exact hs.ends_insertNode hroom hn (Nat.le_refl _) (Nat.le_succ_of_le hs.lastKey) id

theorem ends_newExternal (hs : Sound n s) (hroom : n + 1 < RefCount.bound) (limit : Nat)
    (id : UInt32) (length : UInt16) (fill : UInt8) :
    Ends ((Op.newExternal id length fill).perform limit) s (Performs n s) := by
  have hmax : UInt16.size ≤ SizeClass.maxLargeSize := by decide
  have hkeys : RefCount.bound ≤ keyBound := by decide
  have hlength := length.toNat_lt_size
  have hlast := hs.lastKey
  unfold Op.perform
  rw [ends_bind_of_run_eq_ok (hs.run_exceeds (Nat.lt_of_succ_lt hroom) limit length)]
  cases decide (limit < s.payload + length.toNat) with
  | true => exact hs.performs_nothing
  | false =>
    rw [if_neg Bool.false_ne_true, ends_bind_of_run_eq_ok (run_newKey (by omega))]
    have hdata : (List.replicate length.toNat fill).length ≤ SizeClass.maxLargeSize := by
      rw [List.length_replicate]
      omega
    generalize List.replicate length.toNat fill = data at hdata ⊢
    obtain ⟨keys, hm, hperm⟩ := hs.nodes.lent
    have hnew : s.lastKey + 1 ∉ s.unreleased := fun hmem =>
      Nat.not_succ_le_self _ (hs.nodes.known _ hmem)
    have hnew' : s.lastKey + 1 ∉ keys := fun hmem =>
      hnew (hperm.mem_iff.2 (List.mem_append_right _ hmem))
    obtain ⟨lent, hrun, hnotices, hbody, hm'⟩ := hm.lend hdata hnew'
    refine (ends_onHeap (s := { s with lastKey := s.lastKey + 1 })
      (ends_of_run_eq_ok hrun ⟨rfl, rfl⟩ : Ends (Heap.ofOwner data (s.lastKey + 1)) s.heap
        fun node h => node = s.heap.next ∧ lent = h)).bind fun node t ht => ?_
    obtain ⟨h, lines, ⟨rfl, rfl⟩, rfl⟩ := ht
    rw [ends_bind_of_run_eq_ok (run_kindOf hbody rfl),
      ends_bind_of_run_eq_ok (run_ensure_beq rfl _), ends_bind_modify]
    refine hs.ends_insertNode hroom ?_ (Nat.le_succ _) (Nat.succ_le_succ hlast) id
    refine ⟨rfl, ⟨_, hm'.congr rfl, ?_⟩, ?_, ?_⟩
    · show (s.unreleased ++ [s.lastKey + 1]).Perm
        (s.released ++ lent.notices.filterMap Notice.owner? ++ (s.lastKey + 1) :: keys)
      rw [hnotices, hs.nodes.quiet, List.filterMap_nil, List.append_nil]
      exact (List.perm_append_singleton _ _).trans
        ((hperm.cons _).trans List.perm_middle.symm)
    · exact List.nodup_append.2 ⟨hs.nodes.once, List.nodup_singleton _, fun a ha b hb heq => by
        rw [List.mem_singleton.1 hb] at heq
        exact hnew (heq ▸ ha)⟩
    · intro key hkey
      rcases List.mem_append.1 hkey with hkey | hkey
      · exact Nat.le_succ_of_le (hs.nodes.known key hkey)
      · exact Nat.le_of_eq (List.mem_singleton.1 hkey)

theorem ends_cloneNode (hs : Sound n s) (hroom : n + 1 < RefCount.bound) (limit : Nat)
    (id src : UInt32) : Ends ((Op.cloneNode id src).perform limit) s (Performs n s) := by
  unfold Op.perform
  rw [ends_bind_get]
  cases hsource : s.nodes.get? src with
  | none => exact hs.performs_nothing
  | some source =>
    have hlive : source ∈ s.nodes.values :=
      List.mem_map_of_mem (Table.mem_of_get?_eq_some hsource)
    refine (hs.nodes.ends_onHeap_of_quiet (fun _ _ => True) (fun _ => source :: s.nodes.values)
      fun keys hm => ?_).bind fun _ t ht => ?_
    · obtain ⟨h', hrun, hnotices, -, hm'⟩ := hm.retain hlive
      exact ends_of_run_eq_ok hrun ⟨trivial, hnotices, hm'⟩
    · obtain ⟨h, lines, rfl, -, hn⟩ := ht
      exact hs.ends_insertNode hroom hn (Nat.le_refl _) (Nat.le_succ_of_le hs.lastKey) id

theorem ends_dropNode (hs : Sound n s) (hroom : n + 1 < RefCount.bound) (limit : Nat)
    (id : UInt32) : Ends ((Op.dropNode id).perform limit) s (Performs n s) := by
  unfold Op.perform
  rw [ends_bind_get]
  cases hlive : s.nodes.get? id with
  | none => exact performs_true hs.succ
  | some live =>
    have hperm := hs.nodesSorted.values_perm_of_get? hlive
    have hfew := hs.fewNodes
    have hn := hs.nodes.perm hperm
    rw [hperm.length_eq] at hfew
    show Ends (modify _ >>= _) s _
    rw [ends_bind_modify]
    have hn' : Nodes { s with nodes := s.nodes.erase id } (live :: (s.nodes.erase id).values) :=
      { hn with }
    apply (hn'.ends_release (by omega)).bind
    intro _ t ht
    obtain ⟨h, lines, rfl, hn''⟩ := ht
    refine performs_true (hs.withNodes hn'' (hs.nodesSorted.erase id) ?_ (Nat.le_refl _)
      (Nat.le_succ_of_le hs.lastKey))
    exact Nat.le_succ_of_le (Nat.le_trans (Table.length_values_erase_le _ id) hs.fewNodes)

theorem reduced_le {all : Nat} (hall : 0 < all) (pos length : Nat) :
    pos % all + (1 + length % (all - pos % all)) ≤ all := by
  have hpos := Nat.mod_lt pos hall
  have hlength := Nat.mod_lt length (Nat.sub_pos_of_lt hpos)
  omega

theorem ends_makePart (hs : Sound n s) (hroom : n + 1 < RefCount.bound) {source : LiveNode}
    (hlive : source ∈ s.nodes.values) {start count : Nat} (hpos : 0 < count)
    (hle : start + count ≤ source.expected.length) (id : UInt32) :
    Ends (do
      let node ← onHeap (Heap.part source.node start count)
      let expected ← orFail (slice source.expected start count)
      checkPart source.node node (count == source.expected.length)
      insertNode id ⟨node, expected, source.external⟩
      return true) s (Performs n s) := by
  refine (hs.nodes.ends_onHeap_of_quiet
    (fun node h => if count = source.expected.length then node = source.node
      else h.child? node = some (h.base source.node))
    (fun node => ⟨node, (source.expected.drop start).take count, source.external⟩ ::
      s.nodes.values) fun keys hm => ?_).bind fun node t ht => ?_
  · obtain ⟨node, h', hrun, hnotices, hm', hshares⟩ := hm.part hlive hpos hle
    exact ends_of_run_eq_ok hrun ⟨hshares, hnotices, hm'⟩
  · obtain ⟨h, lines, rfl, hshares, hn⟩ := ht
    obtain ⟨keys, hm, -⟩ := hn.lent
    obtain ⟨m, hsource, -⟩ := hm.body?_of_mem (List.mem_cons_of_mem _ hlive)
    have hcheck : (checkPart source.node node (count == source.expected.length)).run
        (s.settled h lines) = .ok () (s.settled h lines) := by
      apply run_checkPart hm.owned (Heap.body?_of_find? hsource)
      simp only [beq_iff_eq]
      exact hshares
    rw [ends_bind_of_run_eq_ok (run_orFail (slice_eq_ok hle)), ends_bind_of_run_eq_ok hcheck]
    exact hs.ends_insertNode hroom hn (Nat.le_refl _) (Nat.le_succ_of_le hs.lastKey) id

theorem ends_subRange (hs : Sound n s) (hroom : n + 1 < RefCount.bound) (limit : Nat)
    (id src : UInt32) (pos length : UInt16) :
    Ends ((Op.subRange id src pos length).perform limit) s (Performs n s) := by
  unfold Op.perform
  rw [ends_bind_get]
  cases hsource : s.nodes.get? src with
  | none => exact hs.performs_nothing
  | some source =>
    show Ends (if source.expected.length = 0 then _ else _) s _
    by_cases hempty : source.expected.length = 0
    · rw [if_pos hempty]
      exact hs.performs_nothing
    · rw [if_neg hempty]
      have hle := reduced_le (Nat.pos_of_ne_zero hempty) pos.toNat length.toNat
      have hlive : source ∈ s.nodes.values :=
        List.mem_map_of_mem (Table.mem_of_get?_eq_some hsource)
      exact hs.ends_makePart hroom hlive (by omega) hle id

theorem ends_append (hs : Sound n s) (hroom : n + 1 < RefCount.bound) (limit : Nat)
    (id : UInt32) (length fill : UInt8) :
    Ends ((Op.append id length fill).perform limit) s (Performs n s) := by
  unfold Op.perform
  rw [ends_bind_get]
  cases hlive : s.nodes.get? id with
  | none => exact hs.performs_nothing
  | some live =>
    have hperm := hs.nodesSorted.values_perm_of_get? hlive
    have hn := hs.nodes.perm hperm
    have hfew := hs.fewNodes
    have hrefs := hs.nodes.referencesTo_eq live.node
    rw [hperm.length_eq] at hfew
    rw [(hperm.map _).count_eq] at hrefs
    generalize List.replicate length.toNat fill = data
    obtain ⟨keys, hm, hkeys⟩ := hn.lent
    obtain ⟨m, capacity, room, hnode, hone, hcapacity, hleft, happend⟩ :=
      hm.ends_append (by omega) data
    have hunique : m.refs.isOne = (s.referencesTo live.node == 1) := by
      rw [hone, hrefs, Bool.eq_iff_iff, beq_iff_eq, decide_eq_true_eq]
    show Ends (readHeap (·.node live.node) >>= _) s _
    rw [ends_bind_of_run_eq_ok (run_readHeap (Heap.node_eq_ok_iff.2 hnode)),
      ends_bind_of_run_eq_ok (run_ensure_beq hunique _),
      ends_bind_of_run_eq_ok (run_orFail hcapacity)]
    refine room_elim (motive := fun op => Ends op s (Performs n s)) ?_
    rw [ends_bind_of_run_eq_ok (run_orFail hleft)]
    apply (ends_onHeap happend).bind
    intro count t ht
    obtain ⟨h, lines, ⟨hcount, hnotices, hm'⟩, rfl⟩ := ht
    have hslice : slice data 0 count = .ok (data.take count) := by
      rw [slice_eq_ok (by omega), List.drop_zero]
    rw [ends_bind_of_run_eq_ok (run_ensure_beq hcount _),
      ends_bind_of_run_eq_ok (run_orFail hslice), ends_bind_modify]
    have hgrown := hs.nodesSorted.values_insert_perm id
      ⟨live.node, live.expected ++ data.take count, live.external⟩
    have hquiet : h.notices = s.heap.notices ++ [] := by rw [hnotices, List.append_nil]
    have hn' := (hn.settled hkeys hm' hquiet (.refl _) lines).perm hgrown.symm
    refine performs_true (hs.withNodes { hn' with } (hs.nodesSorted.insert id _) ?_ (Nat.le_refl _)
      (Nat.le_succ_of_le hs.lastKey))
    exact Nat.le_trans (Nat.le_of_eq hgrown.length_eq) (Nat.le_succ_of_le hfew)

/-! ## Snapshots and handles -/

theorem ends_newSnapshot (hs : Sound n s) (hroom : n + 1 < RefCount.bound) (limit : Nat)
    (id : UInt32) : Ends ((Op.newSnapshot id).perform limit) s (Performs n s) := by
  have hwords : RefCount.bound ≤ wordBound := by decide
  have hclock := hs.clock
  obtain ⟨xs, c, hq⟩ := hs.entries
  obtain ⟨e, queue, hrun, hk⟩ := hq.kept.opens
  unfold Op.perform
  rw [ends_bind_of_run_eq_ok (run_tick (by omega)),
    ends_bind_of_run_eq_ok (run_onQueue (s := { s with clock := s.clock + 1 }) hrun), ends_bind_log,
    ends_bind_get, ends_bind_modify]
  have hq' := hq.opens hk (s.log.push (.store (.snapshotMade e)))
  have hsorted := hs.snapshotsSorted.insert id (e, s.clock + 1)
  cases hold : s.snapshots.get? id with
  | none =>
    have hq'' := hq'.perm (hs.snapshotsSorted.values_insert_perm_of_get?_eq_none hold _) (.refl _)
    exact performs_true (hs.withEntries { hq'' with } hsorted hs.handlesSorted
      (Nat.succ_le_succ hclock) (Nat.le_succ_of_le hs.fewHandles) (Nat.le_refl _)
      (Nat.le_succ_of_le hs.lastKey))
  | some old =>
    have hq'' := hq'.perm (hs.snapshotsSorted.values_insert_perm_of_get? hold _) (.refl _)
    have hends := Noted.ends_endSnapshot
      (s := { s with
        queue
        clock := s.clock + 1
        snapshots := s.snapshots.insert id (e, s.clock + 1)
        log := s.log.push (.store (.snapshotMade e)) }) { hq'' with }
      (show s.clock + 1 < wordBound by omega)
    apply hends.bind
    intro _ t ht
    obtain ⟨queue', dropped, log, xs', c', rfl, hq₃⟩ := ht
    exact performs_true (hs.withEntries hq₃ hsorted hs.handlesSorted (Nat.succ_le_succ hclock)
      (Nat.le_succ_of_le hs.fewHandles) (Nat.le_refl _) (Nat.le_succ_of_le hs.lastKey))

theorem ends_dropSnapshot (hs : Sound n s) (hroom : n + 1 < RefCount.bound) (limit : Nat)
    (id : UInt32) : Ends ((Op.dropSnapshot id).perform limit) s (Performs n s) := by
  have hwords : RefCount.bound ≤ wordBound := by decide
  have hclock := hs.clock
  obtain ⟨xs, c, hq⟩ := hs.entries
  unfold Op.perform
  rw [ends_bind_get]
  cases hold : s.snapshots.get? id with
  | none => exact performs_true hs.succ
  | some old =>
    have hq' := hq.perm (hs.snapshotsSorted.values_perm_of_get? hold).symm (.refl _)
    show Ends (modify _ >>= _) s _
    rw [ends_bind_modify]
    have hends := Noted.ends_endSnapshot (s := { s with snapshots := s.snapshots.erase id })
      { hq' with } (show s.clock < wordBound by omega)
    apply hends.bind
    intro _ t ht
    obtain ⟨queue, dropped, log, xs', c', rfl, hq''⟩ := ht
    exact performs_true (hs.withEntries hq'' (hs.snapshotsSorted.erase id) hs.handlesSorted
      (Nat.le_succ_of_le hclock) (Nat.le_succ_of_le hs.fewHandles) (Nat.le_refl _)
      (Nat.le_succ_of_le hs.lastKey))

theorem ends_newHandle (hs : Sound n s) (hroom : n + 1 < RefCount.bound) (limit : Nat)
    (id : UInt32) : Ends ((Op.newHandle id).perform limit) s (Performs n s) := by
  have hwords : RefCount.bound ≤ wordBound := by decide
  have hkeys : RefCount.bound ≤ keyBound := by decide
  have hclock := hs.clock
  have hlast := hs.lastKey
  obtain ⟨xs, c, hq⟩ := hs.entries
  obtain ⟨h, queue, hrun, hk⟩ := hq.kept.makes (s.lastKey + 1)
  have hq' := hq.makes hk (Nat.lt_succ_self _)
  have hsize : s.snapshots.values.length = s.snapshots.size := List.length_map _
  have hsafe : (queue.isEmpty == (s.snapshots.size == 0)) = true := by
    rw [beq_iff_eq, Bool.eq_iff_iff, beq_iff_eq, ← hsize, List.length_eq_zero_iff]
    exact hq'.isEmpty_iff
  have hsorted := hs.handlesSorted.insert id h
  have hfew := Nat.le_trans (hs.handlesSorted.length_values_insert_le id h)
    (Nat.succ_le_succ hs.fewHandles)
  unfold Op.perform
  rw [ends_bind_of_run_eq_ok (run_newKey (by omega)),
    ends_bind_of_run_eq_ok (run_onQueue (s := { s with lastKey := s.lastKey + 1 }) hrun),
    ends_bind_of_run_eq_ok (run_isEmpty _), ends_bind_get,
    ends_bind_of_run_eq_ok (run_ensure hsafe _), ends_bind_get, ends_bind_modify]
  cases hold : s.handles.get? id with
  | none =>
    have hq'' := hq'.perm (.refl _) (hs.handlesSorted.values_insert_perm_of_get?_eq_none hold _)
    exact performs_true (hs.withEntries { hq'' with } hs.snapshotsSorted hsorted
      (Nat.le_succ_of_le hclock) hfew (Nat.le_succ _) (Nat.succ_le_succ hlast))
  | some old =>
    have hq'' := hq'.perm (.refl _) (hs.handlesSorted.values_insert_perm_of_get? hold _)
    have hends := Noted.ends_retireHandle
      (s := { s with queue, lastKey := s.lastKey + 1, handles := s.handles.insert id h })
      { hq'' with } (show s.clock + 1 < wordBound by omega)
    apply hends.bind
    intro _ t ht
    obtain ⟨queue', deleted, dropped, log, xs', c', rfl, hq₃⟩ := ht
    exact performs_true (hs.withEntries hq₃ hs.snapshotsSorted hsorted (Nat.succ_le_succ hclock) hfew
      (Nat.le_succ _) (Nat.succ_le_succ hlast))

theorem ends_deleteHandle (hs : Sound n s) (hroom : n + 1 < RefCount.bound) (limit : Nat)
    (id : UInt32) : Ends ((Op.deleteHandle id).perform limit) s (Performs n s) := by
  have hwords : RefCount.bound ≤ wordBound := by decide
  have hclock := hs.clock
  obtain ⟨xs, c, hq⟩ := hs.entries
  unfold Op.perform
  rw [ends_bind_get]
  cases hold : s.handles.get? id with
  | none => exact performs_true hs.succ
  | some old =>
    have hq' := hq.perm (.refl _) (hs.handlesSorted.values_perm_of_get? hold).symm
    show Ends (modify _ >>= _) s _
    rw [ends_bind_modify]
    have hends := Noted.ends_retireHandle (s := { s with handles := s.handles.erase id })
      { hq' with } (show s.clock + 1 < wordBound by omega)
    apply hends.bind
    intro _ t ht
    obtain ⟨queue, deleted, dropped, log, xs', c', rfl, hq''⟩ := ht
    exact performs_true (hs.withEntries hq'' hs.snapshotsSorted (hs.handlesSorted.erase id)
      (Nat.succ_le_succ hclock)
      (Nat.le_succ_of_le (Nat.le_trans (Table.length_values_erase_le _ id) hs.fewHandles))
      (Nat.le_refl _) (Nat.le_succ_of_le hs.lastKey))

/-- **Every operation ends well.** -/
theorem ends_perform (hs : Sound n s) (hroom : n + 1 < RefCount.bound) (limit : Nat) (op : Op) :
    Ends (op.perform limit) s (Performs n s) := by
  cases op with
  | newBuffer id length fill => exact hs.ends_newBuffer hroom limit id length fill
  | newExternal id length fill => exact hs.ends_newExternal hroom limit id length fill
  | subRange id src pos length => exact hs.ends_subRange hroom limit id src pos length
  | cloneNode id src => exact hs.ends_cloneNode hroom limit id src
  | dropNode id => exact hs.ends_dropNode hroom limit id
  | append id length fill => exact hs.ends_append hroom limit id length fill
  | newSnapshot id => exact hs.ends_newSnapshot hroom limit id
  | dropSnapshot id => exact hs.ends_dropSnapshot hroom limit id
  | newHandle id => exact hs.ends_newHandle hroom limit id
  | deleteHandle id => exact hs.ends_deleteHandle hroom limit id

end Sound
end RopeStore.Trial
