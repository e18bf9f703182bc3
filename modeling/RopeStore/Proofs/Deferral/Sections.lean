import Mathlib.Data.List.Basic
import Mathlib.Data.List.Nodup
import Mathlib.Data.List.TakeWhile
import RopeStore.Proofs.Deferral.Chain

/-!
# The sections under the lock

* `Orderly q xs` : the lock of `q` is free, its chain is `xs`, the oldest entry is a snapshot, and the
  counter of waiting handles is right;
* `leaving xs e`, `staying xs e` : the handles that leave the chain `xs` with its snapshot `e`, and the
  entries that stay;
* `run_locked_of_ok`, `run_locked_of_error`, `leaves_locked` : a section under a lock that is free;
* `run_appendSnapshot`, `run_appendIfWatched_of_nil`, `run_appendIfWatched`, `leaves_removeSnapshot`,
  `run_entries` : the sections, each with the chain that it leaves;
* `Orderly.push`, `Orderly.erase` : a cell outside the chain may come and go;
* `run_openSnapshot` : a new cell that joins the chain at once.
-/

namespace RopeStore.Deferral
variable {α β : Type} {q q' : Queue α} {xs : List EntryId} {e : EntryId}

/-- The lock is free, the chain is `xs` with a snapshot at its old end, and the counter of waiting
handles is right. -/
structure Orderly (q : Queue α) (xs : List EntryId) : Prop where
  chain : Chain q xs
  free : q.lock.held = false
  oldest : ∀ e, xs.head? = some e → e.isSnapshot = true
  pending : q.stats.pending = xs.countP isHandle

def Stands (q : Queue α) (e : EntryId) : Prop :=
  e.queue = q.number ∧ ∃ c, q.cell? e.serial = some c ∧ c.content.isSnapshot = e.isSnapshot

/-- The handles that leave the chain `xs` with its snapshot `e`. -/
def leaving (xs : List EntryId) (e : EntryId) : List EntryId :=
  if xs.head? = some e then xs.tail.takeWhile isHandle else []

/-- The entries that stay in the chain `xs` when its snapshot `e` leaves. -/
def staying (xs : List EntryId) (e : EntryId) : List EntryId :=
  if xs.head? = some e then xs.tail.dropWhile isHandle else xs.erase e

/-! ## The lists -/

/-- What leaves are the oldest of all handles. -/
theorem leaving_append_filter_staying (he : e ∈ xs) (hsnap : e.isSnapshot = true) :
    leaving xs e ++ (staying xs e).filter isHandle = xs.filter isHandle := by
  have hneg : ¬ isHandle e = true := by
    rw [isHandle_eq_false hsnap]
    exact Bool.false_ne_true
  unfold staying leaving
  by_cases hhead : xs.head? = some e
  · rw [if_pos hhead, if_pos hhead]
    obtain ⟨ys, rfl⟩ : ∃ ys, xs = e :: ys := ⟨xs.tail, List.eq_cons_of_mem_head? hhead⟩
    have hall : (ys.takeWhile isHandle).filter isHandle = ys.takeWhile isHandle :=
      List.filter_eq_self.2 fun _ hmem => List.mem_takeWhile_imp hmem
    rw [List.tail_cons, List.filter_cons_of_neg hneg]
    conv_rhs => rw [← List.takeWhile_append_dropWhile (p := isHandle) (l := ys), List.filter_append, hall]
  · rw [if_neg hhead, if_neg hhead, List.nil_append]
    obtain ⟨as, bs, -, rfl, herase⟩ := List.exists_erase_eq he
    rw [herase, List.filter_append, List.filter_append, List.filter_cons_of_neg hneg]

/-- What leaves are the handles that are counted no longer. -/
theorem countP_staying (he : e ∈ xs) (hsnap : e.isSnapshot = true) :
    (staying xs e).countP isHandle + (leaving xs e).length = xs.countP isHandle := by
  rw [List.countP_eq_length_filter, List.countP_eq_length_filter,
    ← leaving_append_filter_staying he hsnap, List.length_append, Nat.add_comm]

theorem staying_sublist (xs : List EntryId) (e : EntryId) : (staying xs e).Sublist xs := by
  unfold staying
  split
  · exact (List.dropWhile_sublist _).trans (List.tail_sublist xs)
  · exact List.erase_sublist

theorem leaving_sublist (xs : List EntryId) (e : EntryId) : (leaving xs e).Sublist xs := by
  unfold leaving
  split
  · exact (List.takeWhile_sublist _).trans (List.tail_sublist xs)
  · exact List.nil_sublist xs

theorem head?_staying (hold : ∀ e, xs.head? = some e → e.isSnapshot = true) {e' : EntryId}
    (he' : (staying xs e).head? = some e') : e'.isSnapshot = true := by
  unfold staying at he'
  by_cases hhead : xs.head? = some e
  · rw [if_pos hhead] at he'
    have hstop := List.head?_dropWhile_not isHandle xs.tail
    rw [he'] at hstop
    simpa [isHandle] using hstop
  · rw [if_neg hhead] at he'
    cases xs with
    | nil => cases he'
    | cons x rest =>
      have hx : x ≠ e := fun h => hhead (by rw [h]; rfl)
      rw [List.erase_cons_tail (by simpa using hx)] at he'
      exact hold e' he'

/-! ## Cells outside the chain -/

namespace Orderly

theorem nodup (ho : Orderly q xs) : xs.Nodup := List.Nodup.of_map _ ho.chain.nodup

theorem stands (ho : Orderly q xs) (he : e ∈ xs) : Stands q e :=
  ⟨ho.chain.own e he, ho.chain.linked.cell_of_mem he⟩

theorem congr (ho : Orderly q xs) (hnumber : q'.number = q.number) (hlock : q'.lock = q.lock)
    (hstats : q'.stats = q.stats) (hnewest : q'.newest = q.newest)
    (hcells : ∀ e ∈ xs, q'.cell? e.serial = q.cell? e.serial) : Orderly q' xs where
  chain := by
    refine ⟨ho.chain.linked.congr hcells, ho.chain.nodup, ?_, ?_⟩
    · rw [hnewest, ho.chain.newest]
    · rw [hnumber]
      exact ho.chain.own
  free := by rw [hlock, ho.free]
  oldest := ho.oldest
  pending := by rw [hstats, ho.pending]

theorem isEmpty_eq (ho : Orderly q xs) : q.isEmpty = xs.isEmpty := by
  rw [Queue.isEmpty, ho.chain.newest]
  rcases List.eq_nil_or_concat xs with rfl | ⟨ys, last, rfl⟩
  · rfl
  · rw [List.concat_eq_append, lastOr_concat]
    cases ys <;> rfl

end Orderly

theorem Stands.eq_of_serial {e' : EntryId} (h : Stands q e) (h' : Stands q e')
    (hserial : e.serial = e'.serial) : e = e' := by
  obtain ⟨hqueue, c, hc, hkind⟩ := h
  obtain ⟨hqueue', c', hc', hkind'⟩ := h'
  rw [hserial, hc'] at hc
  cases hc
  cases e
  cases e'
  simp_all

theorem SameCells.stays (hs : SameCells q q') (s : Nat) (hgone : q.cell? s = none) :
    q'.cell? s = none := by
  have hcontent := hs.content s
  rwa [hgone, Option.map_none, Option.map_eq_none_iff] at hcontent

theorem SameCells.stands (hs : SameCells q q') : Stands q' e ↔ Stands q e := by
  have hcell := hs.content e.serial
  unfold Stands
  rw [hs.number]
  cases hc : q.cell? e.serial with
  | none =>
    rw [hc, Option.map_none, Option.map_eq_none_iff] at hcell
    rw [hcell]
  | some c =>
    rw [hc, Option.map_some, Option.map_eq_some_iff] at hcell
    obtain ⟨c', hc', hcontent⟩ := hcell
    rw [hc']
    simp [hcontent]

namespace Queue

/-! ## The lock -/

/-- The queue while a section is under its lock. -/
def taken (q : Queue α) : Queue α := { q with lock := { q.lock with held := true } }

theorem lock_eq (hfree : q.lock.held = false) : ({ q.lock with held := false } : Lock) = q.lock := by
  rw [← hfree]

theorem run_lockAcquire {lock : Lock} (hfree : lock.held = false) :
    Lock.acquire.run lock = .ok () { lock with held := true } := by
  obtain ⟨kind, held⟩ := lock
  cases hfree
  rfl

theorem run_lockRelease {lock : Lock} (hheld : lock.held = true) :
    Lock.release.run lock = .ok () { lock with held := false } := by
  obtain ⟨kind, held⟩ := lock
  cases hheld
  cases kind <;> rfl

theorem run_onLock {op : EStateM Fault Lock Unit} {lock : Lock}
    (hop : op.run q.lock = .ok () lock) : (onLock op).run q = .ok () { q with lock } := by
  unfold EStateM.run at hop ⊢
  unfold onLock EStateM.run
  rw [hop]

/-- The queue after a section that left it as `q'`. -/
def freed (q' : Queue α) : Queue α := { q' with lock := { q'.lock with held := false } }

theorem run_locked_of_ok {critical : QueueM α β} {b : β} (hfree : q.lock.held = false)
    (hrun : critical.run q.taken = .ok b q') (hlock : q'.lock = q.taken.lock) :
    (locked critical).run q = .ok b q'.freed := by
  have hheld : q'.lock.held = true := by rw [hlock]; rfl
  have htry : (tryCatch critical fun fault => do onLock Lock.release; throw fault).run q.taken =
      .ok b q' := by
    rw [run_tryCatch, hrun]
  rw [locked, run_bind_of_run_eq_ok (run_onLock (run_lockAcquire hfree))]
  refine (run_bind_of_run_eq_ok htry).trans ?_
  rw [run_bind_of_run_eq_ok (run_onLock (run_lockRelease hheld))]
  rfl

theorem run_locked_of_error {critical : QueueM α β} {fault : Fault} (hfree : q.lock.held = false)
    (hrun : critical.run q.taken = .error fault q') (hlock : q'.lock = q.taken.lock) :
    (locked critical).run q = .error fault q'.freed := by
  have hheld : q'.lock.held = true := by rw [hlock]; rfl
  have htry : (tryCatch critical fun fault => do onLock Lock.release; throw fault).run q.taken =
      .error fault q'.freed := by
    rw [run_tryCatch, hrun]
    refine (run_bind_of_run_eq_ok (run_onLock (run_lockRelease hheld))).trans ?_
    rfl
  rw [locked, run_bind_of_run_eq_ok (run_onLock (run_lockAcquire hfree))]
  exact run_bind_of_run_eq_error htry

/-- What a section leaves under the lock, it leaves with the lock free. -/
theorem leaves_locked {critical : QueueM α β} {good : β → Queue α → Prop}
    {bad : Fault → Queue α → Prop} (hfree : q.lock.held = false)
    (hcritical : Leaves critical q.taken (fun b q' => q'.lock = q.taken.lock ∧ good b q'.freed)
      fun fault q' => q'.lock = q.taken.lock ∧ bad fault q'.freed) :
    Leaves (locked critical) q good bad := by
  unfold Leaves at hcritical
  cases hrun : critical.run q.taken with
  | ok b q' =>
    rw [hrun] at hcritical
    exact leaves_of_run_eq_ok (run_locked_of_ok hfree hrun hcritical.1) hcritical.2
  | error fault q' =>
    rw [hrun] at hcritical
    exact leaves_of_run_eq_error (run_locked_of_error hfree hrun hcritical.1) hcritical.2

/-! ## What a section keeps -/

theorem chain_taken (hch : Chain q xs) : Chain q.taken xs :=
  ⟨hch.linked, hch.nodup, hch.newest, hch.own⟩

theorem chain_freed (hch : Chain q xs) : Chain q.freed xs :=
  ⟨hch.linked, hch.nodup, hch.newest, hch.own⟩

theorem sameCells_freed (hfree : q.lock.held = false) (hs : SameCells q.taken q') :
    SameCells q q'.freed where
  number := hs.number
  lock := by
    show ({ q'.lock with held := false } : Lock) = q.lock
    rw [hs.lock]
    exact lock_eq hfree
  size := hs.size
  content := hs.content

theorem taken_freed (hfree : q.lock.held = false) : q.taken.freed = q := by
  show { q with lock := { q.lock with held := false } } = q
  rw [lock_eq hfree]

/-! ## The sections -/

/-- A cell that stands and is not in the chain may join it. -/
theorem run_link_taken (ho : Orderly q xs) (hstands : Stands q e) (hnew : e ∉ xs) :
    ∃ q', (link e.serial).run q.taken = .ok () q' ∧ Chain q' (xs ++ [e]) ∧ Relinked q.taken q' := by
  obtain ⟨hown, c, hc, hkind⟩ := hstands
  apply run_link (chain_taken ho.chain) hc hkind hown
  intro hmem
  obtain ⟨e', he', hserial⟩ := List.mem_map.1 hmem
  exact hnew ((ho.stands he').eq_of_serial ⟨hown, c, hc, hkind⟩ hserial ▸ he')

theorem run_appendSnapshot (ho : Orderly q xs) (hstands : Stands q e) (hsnap : e.isSnapshot = true)
    (hnew : e ∉ xs) :
    ∃ q', (locked (appendSnapshot e)).run q = .ok () q' ∧ Orderly q' (xs ++ [e]) ∧
      SameCells q q' ∧ q'.stats = q.stats := by
  obtain ⟨q', hrun, hch, hre⟩ := run_link_taken ho hstands hnew
  have hsame := sameCells_freed ho.free hre.toSameCells
  refine ⟨q'.freed, run_locked_of_ok ho.free hrun hre.lock, ⟨chain_freed hch, rfl, ?_, ?_⟩, hsame,
    hre.stats⟩
  · intro e' he'
    cases xs with
    | nil =>
      cases he'
      exact hsnap
    | cons x rest => exact ho.oldest e' he'
  · show q'.stats.pending = _
    rw [hre.stats, List.countP_append, List.countP_singleton, isHandle_eq_false hsnap]
    exact ho.pending

theorem run_appendIfWatched_of_nil (ho : Orderly q []) (handle : EntryId) :
    (locked (appendIfWatched handle)).run q = .ok false q := by
  have hempty : q.taken.isEmpty = true := ho.isEmpty_eq
  have hrun : (appendIfWatched handle).run q.taken = .ok false q.taken := by
    rw [appendIfWatched, run_bind_of_run_eq_ok (EStateM.run_get _), hempty]
    rfl
  rw [run_locked_of_ok ho.free hrun rfl, taken_freed ho.free]

theorem run_appendIfWatched (ho : Orderly q xs) (hne : xs ≠ []) (hstands : Stands q e)
    (hhandle : e.isSnapshot = false) (hnew : e ∉ xs) :
    ∃ q', (locked (appendIfWatched e)).run q = .ok true q' ∧ Orderly q' (xs ++ [e]) ∧
      SameCells q q' ∧ q'.stats.reclaimed = q.stats.reclaimed := by
  obtain ⟨q', hrun, hch, hre⟩ := run_link_taken ho hstands hnew
  obtain ⟨x, rest, rfl⟩ := List.exists_cons_of_ne_nil hne
  have hempty : q.taken.isEmpty = false := ho.isEmpty_eq
  have hrun' : (appendIfWatched e).run q.taken = .ok true
      { q' with stats := { q'.stats with pending := q'.stats.pending + 1 } } := by
    rw [appendIfWatched, run_bind_of_run_eq_ok (EStateM.run_get _), hempty]
    refine (run_bind_of_run_eq_ok hrun).trans ?_
    rfl
  refine ⟨_, run_locked_of_ok ho.free hrun' hre.lock, ⟨?_, rfl, ho.oldest, ?_⟩, ?_, ?_⟩
  · exact ⟨hch.linked, hch.nodup, hch.newest, hch.own⟩
  · have hgo := isHandle_iff.2 hhandle
    show q'.stats.pending + 1 = _
    rw [hre.stats, List.countP_append, List.countP_singleton, hgo]
    show q.stats.pending + 1 = _
    rw [ho.pending]
    rfl
  · exact sameCells_freed ho.free ⟨hre.number, hre.lock, hre.size, hre.content⟩
  · show q'.stats.reclaimed = q.stats.reclaimed
    rw [hre.stats]
    rfl

theorem run_unlinkSnapshot (hch : Chain q xs) (he : e ∈ xs) :
    ∃ q', (unlinkSnapshot e.serial).run q = .ok ((leaving xs e).map (·.serial)) q' ∧
      Chain q' (staying xs e) ∧ Relinked q q' := by
  have hnodup : xs.Nodup := List.Nodup.of_map _ hch.nodup
  unfold leaving staying
  by_cases hhead : xs.head? = some e
  · obtain ⟨ys, rfl⟩ : ∃ ys, xs = e :: ys := ⟨xs.tail, List.eq_cons_of_mem_head? hhead⟩
    rw [if_pos hhead, if_pos hhead]
    exact run_unlinkSnapshot_of_oldest hch
  · rw [if_neg hhead, if_neg hhead]
    obtain ⟨as, ys, rfl⟩ := List.append_of_mem he
    have hnot : e ∉ as := by
      intro hmem
      exact (List.nodup_append.1 hnodup).2.2 e hmem e List.mem_cons_self rfl
    rcases List.eq_nil_or_concat as with rfl | ⟨zs, a, rfl⟩
    · exact absurd rfl hhead
    · rw [List.concat_eq_append] at hch hnot ⊢
      rw [List.erase_append_right _ hnot, List.erase_cons_head]
      exact run_unlinkSnapshot_of_newer hch

theorem idOf_eq_ok (he : Stands q e) : q.idOf e.serial = .ok e := by
  obtain ⟨hqueue, c, hc, hkind⟩ := he
  rw [idOf, cell_eq_ok hc]
  show Except.ok (⟨q.number, e.serial, c.content.isSnapshot⟩ : EntryId) = _
  rw [hkind, ← hqueue]

theorem run_mapM_idOf {es : List EntryId} (hstands : ∀ e ∈ es, Stands q e) :
    ((es.map (·.serial)).mapM fun serial => ask (·.idOf serial)).run q = .ok es q := by
  induction es with
  | nil => rfl
  | cons e rest ih =>
    have hid := idOf_eq_ok (hstands e List.mem_cons_self)
    rw [List.map_cons, List.mapM_cons, run_bind_of_run_eq_ok (run_ask_of_eq_ok hid),
      run_bind_of_run_eq_ok (ih fun e' he' => hstands e' (List.mem_cons_of_mem _ he'))]
    rfl

/-- A snapshot leaves the chain, and with it the handles that were waiting only for it. Only the
count of all handles that ever left can be too large for its word, and then they have left, too. -/
theorem leaves_removeSnapshot (ho : Orderly q xs) (he : e ∈ xs) (hsnap : e.isSnapshot = true) :
    Leaves (locked (removeSnapshot e)) q
      (fun doomed q' => doomed = leaving xs e ∧ Orderly q' (staying xs e) ∧ SameCells q q' ∧
        q'.stats.reclaimed = q.stats.reclaimed + doomed.length)
      fun fault q' => fault = .addOverflow ∧ Orderly q' (staying xs e) ∧ SameCells q q' ∧
        q'.stats.reclaimed = q.stats.reclaimed ∧
        wordBound ≤ q.stats.reclaimed + (leaving xs e).length := by
  obtain ⟨q₁, hrun, hch, hre⟩ := run_unlinkSnapshot (chain_taken ho.chain) he
  have hcount := countP_staying he hsnap
  have hlen : ((leaving xs e).map (·.serial)).length = (leaving xs e).length := List.length_map _
  have hstats : q₁.stats = q.stats := hre.stats
  have hsub : checkedSub q₁.stats.pending ((leaving xs e).map (·.serial)).length =
      .ok ((staying xs e).countP isHandle) := by
    rw [checkedSub, hlen, hstats, ho.pending, if_pos (by omega)]
    congr 1
    omega
  have horderly : ∀ reclaimed, Orderly
      (freed { q₁ with stats := ⟨(staying xs e).countP isHandle, reclaimed⟩ }) (staying xs e) :=
    fun reclaimed => ⟨⟨hch.linked, hch.nodup, hch.newest, hch.own⟩, rfl,
      fun e' he' => head?_staying ho.oldest he', rfl⟩
  have hsame : ∀ stats, SameCells q (freed { q₁ with stats }) := fun stats =>
    sameCells_freed ho.free ⟨hre.number, hre.lock, hre.size, hre.content⟩
  have hstands : ∀ stats, ∀ e' ∈ leaving xs e, Stands { q₁ with stats } e' := by
    intro stats e' he'
    have hs : SameCells q { q₁ with stats, lock := q.lock } :=
      ⟨hre.number, rfl, hre.size, hre.content⟩
    exact hs.stands.2 (ho.stands ((leaving_sublist xs e).subset he'))
  apply leaves_locked ho.free
  unfold removeSnapshot
  rw [leaves_bind_of_run_eq_ok hrun, leaves_bind_of_run_eq_ok (EStateM.run_get q₁)]
  show Leaves (ofExcept (checkedSub q₁.stats.pending _) >>= _ : QueueM α _) q₁ _ _
  rw [leaves_bind_of_run_eq_ok (run_ofExcept_of_eq_ok hsub),
    leaves_bind_of_run_eq_ok (EStateM.run_modify _ _)]
  show Leaves (ofExcept (checkedAdd q₁.stats.reclaimed _) >>= _ : QueueM α _) _ _ _
  by_cases hword : q.stats.reclaimed + (leaving xs e).length < wordBound
  · have hadd : checkedAdd q₁.stats.reclaimed ((leaving xs e).map (·.serial)).length =
        .ok (q.stats.reclaimed + (leaving xs e).length) := by
      rw [checkedAdd, hlen, hstats, if_pos hword]
    rw [leaves_bind_of_run_eq_ok (run_ofExcept_of_eq_ok hadd),
      leaves_bind_of_run_eq_ok (EStateM.run_modify _ _)]
    exact leaves_of_run_eq_ok (run_mapM_idOf (hstands _))
      ⟨hre.lock, rfl, horderly _, hsame _, rfl⟩
  · have hadd : checkedAdd q₁.stats.reclaimed ((leaving xs e).map (·.serial)).length =
        .error .addOverflow := by
      rw [checkedAdd, hlen, hstats, if_neg hword]
    refine leaves_of_run_eq_error (run_bind_of_run_eq_error (run_ofExcept_of_eq_error hadd)) ?_
    rw [hstats]
    exact ⟨hre.lock, rfl, horderly _, hsame _, rfl, Nat.le_of_not_lt hword⟩

/-- Under the lock, the walk from the newest cell meets the chain, the newest entry first. -/
theorem run_listed (ho : Orderly q xs) :
    (do (← ask fun q => q.olderWalk q.newest).mapM fun serial => ask (·.idOf serial) :
      QueueM α (List EntryId)).run q.taken = .ok xs.reverse q.taken := by
  have hwalk : q.taken.olderWalk q.taken.newest = .ok (xs.reverse.map (·.serial)) := by
    have hlen := length_le_of_chain ho.chain
    rw [olderWalk, show q.taken.newest = lastOr none xs from ho.chain.newest]
    exact olderWalkWithin_eq_ok (q := q.taken) ho.chain.linked hlen
  rw [run_bind_of_run_eq_ok (run_ask_of_eq_ok hwalk)]
  apply run_mapM_idOf
  intro e he
  exact ho.stands (List.mem_reverse.1 he)

theorem run_entries (ho : Orderly q xs) : entries.run q = .ok xs.reverse q := by
  rw [entries, run_locked_of_ok ho.free (run_listed ho) rfl, taken_freed ho.free]

end Queue

/-! ## Cells that come and go -/

theorem stands_create (q : Queue α) (content : Content α) :
    Stands { q with cells := q.cells.push ⟨content, none, none⟩ }
      ⟨q.number, q.cells.size, content.isSnapshot⟩ :=
  ⟨rfl, _, Arena.get?_push_size q.cells _, rfl⟩

theorem cell?_create_of_ne (q : Queue α) (c : Cell α) {s : Nat} (hs : s ≠ q.cells.size) :
    ({ q with cells := q.cells.push c } : Queue α).cell? s = q.cell? s :=
  Arena.get?_push_of_ne c hs

theorem serial_lt_of_stands (hs : Stands q e) : e.serial < q.cells.size := by
  obtain ⟨-, c, hc, -⟩ := hs
  exact Arena.lt_size_of_get?_eq_some hc

theorem stands_push (hs : Stands q e) (c : Cell α) :
    Stands { q with cells := q.cells.push c } e := by
  have hlt := serial_lt_of_stands hs
  obtain ⟨hqueue, d, hd, hkind⟩ := hs
  exact ⟨hqueue, d, by rw [cell?_create_of_ne q c (Nat.ne_of_lt hlt), hd], hkind⟩

theorem Orderly.push (ho : Orderly q xs) (c : Cell α) :
    Orderly { q with cells := q.cells.push c } xs :=
  ho.congr rfl rfl rfl rfl fun _ he =>
    cell?_create_of_ne q c (Nat.ne_of_lt (serial_lt_of_stands (ho.stands he)))

theorem cell?_erase_of_ne (q : Queue α) {s t : Nat} (hs : s ≠ t) :
    ({ q with cells := q.cells.erase t } : Queue α).cell? s = q.cell? s :=
  Arena.get?_erase_of_ne q.cells (Ne.symm hs)

theorem stands_erase {e' : EntryId} (hs : Stands q e) (hs' : Stands q e') (hne : e ≠ e') :
    Stands { q with cells := q.cells.erase e'.serial } e := by
  have hserial : e.serial ≠ e'.serial := fun h => hne (hs.eq_of_serial hs' h)
  obtain ⟨hqueue, c, hc, hkind⟩ := hs
  exact ⟨hqueue, c, by rw [cell?_erase_of_ne q hserial, hc], hkind⟩

theorem Orderly.erase {e' : EntryId} (ho : Orderly q xs) (hs : Stands q e') (hout : e' ∉ xs) :
    Orderly { q with cells := q.cells.erase e'.serial } xs :=
  ho.congr rfl rfl rfl rfl fun _ he => cell?_erase_of_ne q fun h =>
    hout ((ho.stands he).eq_of_serial hs h ▸ he)

theorem cell?_erase_self (q : Queue α) (s : Nat) :
    ({ q with cells := q.cells.erase s } : Queue α).cell? s = none :=
  Arena.get?_erase_self q.cells s

theorem Queue.run_openSnapshot (ho : Orderly q xs) :
    ∃ q', openSnapshot.run q = .ok ⟨q.number, q.cells.size, true⟩ q' ∧
      Orderly q' (xs ++ [⟨q.number, q.cells.size, true⟩]) ∧
      SameCells { q with cells := q.cells.push ⟨.snapshot, none, none⟩ } q' ∧
      q'.stats = q.stats := by
  have hnew : (⟨q.number, q.cells.size, true⟩ : EntryId) ∉ xs := by
    intro hmem
    exact Nat.lt_irrefl _ (serial_lt_of_stands (ho.stands hmem))
  obtain ⟨q', hrun, ho', hsame, hstats⟩ := run_appendSnapshot (ho.push ⟨.snapshot, none, none⟩)
    (stands_create q .snapshot) rfl hnew
  refine ⟨q', ?_, ho', hsame, hstats⟩
  rw [openSnapshot, run_bind_of_run_eq_ok (run_create q .snapshot)]
  refine (run_bind_of_run_eq_ok hrun).trans ?_
  rfl

theorem orderly_new (number : Nat) (kind : LockKind) : Orderly (Queue.new number kind : Queue α) [] where
  chain := ⟨trivial, List.nodup_nil, rfl, fun _ he => by cases he⟩
  free := rfl
  oldest := fun _ he => by cases he
  pending := rfl

end RopeStore.Deferral
