import Mathlib.Data.List.Basic
import Mathlib.Data.List.Induction
import Mathlib.Data.List.Perm.Subperm
import RopeStore.Deferral.Inspect
import RopeStore.Proofs.Outcome

/-!
# The chain as a list

* `Linked f older xs newer` : in the cells `f`, the entries `xs` are linked to each other in this order,
  the oldest first, with `older` before them and `newer` behind them;
* `Linked.append_iff` : a stretch of the chain is linked if its parts are;
* `Chain q xs` : the chain of the queue `q` is `xs`;
* `linked_put_newer`, `linked_put_older` : the link at either end of a stretch can be turned to another
  cell;
* `run_link`, `run_unlinkSnapshot_of_oldest`, `run_unlinkSnapshot_of_newer` : the changes of the chain,
  with the list that is left;
* `olderWalkWithin_eq_ok`, `newerWalkWithin_eq_ok` : the walks meet the entries of the list.
-/

namespace RopeStore.Deferral
variable {α : Type}

def isHandle (e : EntryId) : Bool := !e.isSnapshot

theorem isHandle_iff {e : EntryId} : isHandle e = true ↔ e.isSnapshot = false := by
  simp [isHandle]

theorem isHandle_eq_false {e : EntryId} (h : e.isSnapshot = true) : isHandle e = false := by
  simp [isHandle, h]

theorem ne_of_isHandle {e s : EntryId} (he : isHandle e = true) (hs : s.isSnapshot = true) :
    e ≠ s := by
  rintro rfl
  rw [isHandle_eq_false hs] at he
  cases he

/-! ## Links -/

/-- What is met first in `xs`, or behind it. -/
def firstOr : List EntryId → Option Nat → Option Nat
  | [], newer => newer
  | e :: _, _ => some e.serial

def lastOr : Option Nat → List EntryId → Option Nat
  | older, [] => older
  | _, e :: rest => lastOr (some e.serial) rest

/-- In the cells `f`, the entries `xs` are linked to each other, to `older` before them and to
`newer` behind them. -/
def Linked (f : Nat → Option (Cell α)) : Option Nat → List EntryId → Option Nat → Prop
  | _, [], _ => True
  | older, e :: rest, newer =>
    (∃ content, f e.serial = some ⟨content, older, firstOr rest newer⟩ ∧
      content.isSnapshot = e.isSnapshot) ∧ Linked f (some e.serial) rest newer

theorem firstOr_append (xs ys : List EntryId) (newer : Option Nat) :
    firstOr (xs ++ ys) newer = firstOr xs (firstOr ys newer) := by
  cases xs <;> rfl

theorem lastOr_append (older : Option Nat) (xs ys : List EntryId) :
    lastOr older (xs ++ ys) = lastOr (lastOr older xs) ys := by
  induction xs generalizing older with
  | nil => rfl
  | cons e rest ih => exact ih (some e.serial)

theorem lastOr_concat (older : Option Nat) (xs : List EntryId) (e : EntryId) :
    lastOr older (xs ++ [e]) = some e.serial := by
  rw [lastOr_append]
  rfl

namespace Linked
variable {f g : Nat → Option (Cell α)} {older newer : Option Nat} {xs ys : List EntryId}
  {e : EntryId}

theorem append_iff : Linked f older (xs ++ ys) newer ↔
    Linked f older xs (firstOr ys newer) ∧ Linked f (lastOr older xs) ys newer := by
  induction xs generalizing older with
  | nil => simp only [List.nil_append, Linked, lastOr, true_and]
  | cons e rest ih =>
    simp only [List.cons_append, Linked, lastOr]
    rw [ih, firstOr_append, and_assoc]

theorem congr (hl : Linked f older xs newer) (hsame : ∀ e ∈ xs, g e.serial = f e.serial) :
    Linked g older xs newer := by
  induction xs generalizing older with
  | nil => trivial
  | cons e rest ih =>
    obtain ⟨⟨content, hcell, hkind⟩, hrest⟩ := hl
    refine ⟨⟨content, ?_, hkind⟩, ih hrest fun e' he' => hsame e' (List.mem_cons_of_mem _ he')⟩
    rw [hsame e List.mem_cons_self, hcell]

theorem cell_of_mem (hl : Linked f older xs newer) (he : e ∈ xs) :
    ∃ c, f e.serial = some c ∧ c.content.isSnapshot = e.isSnapshot := by
  induction xs generalizing older with
  | nil => cases he
  | cons e' rest ih =>
    obtain ⟨⟨content, hcell, hkind⟩, hrest⟩ := hl
    rcases List.mem_cons.1 he with rfl | he
    · exact ⟨_, hcell, hkind⟩
    · exact ih hrest he

end Linked

/-! ## The chain of a queue -/

/-- The chain of the queue `q` is `xs`, the oldest entry first. -/
structure Chain (q : Queue α) (xs : List EntryId) : Prop where
  linked : Linked q.cell? none xs none
  nodup : (xs.map (·.serial)).Nodup
  newest : q.newest = lastOr none xs
  own : ∀ e ∈ xs, e.queue = q.number

/-- The same cells with the same contents; links and counters may differ. -/
structure SameCells (q q' : Queue α) : Prop where
  number : q'.number = q.number
  lock : q'.lock = q.lock
  size : q'.cells.size = q.cells.size
  content : ∀ s, (q'.cell? s).map (·.content) = (q.cell? s).map (·.content)

/-- Only the links between cells and the newest cell may differ. -/
structure Relinked (q q' : Queue α) : Prop extends SameCells q q' where
  stats : q'.stats = q.stats

theorem Relinked.trans {q q' q'' : Queue α} (h₁ : Relinked q q') (h₂ : Relinked q' q'') :
    Relinked q q'' where
  number := h₂.number.trans h₁.number
  lock := h₂.lock.trans h₁.lock
  stats := h₂.stats.trans h₁.stats
  size := h₂.size.trans h₁.size
  content := fun s => (h₂.content s).trans (h₁.content s)

namespace Queue
variable {q : Queue α} {xs ys : List EntryId} {e : EntryId} {c : Cell α}

def put (q : Queue α) (serial : Nat) (c : Cell α) : Queue α :=
  { q with cells := q.cells.set serial c }

theorem cell?_put {s : Nat} (hs : q.cell? s = some c) (d : Cell α) (t : Nat) :
    (q.put s d).cell? t = if t = s then some d else q.cell? t := by
  by_cases ht : t = s
  · rw [if_pos ht, ht]
    exact Arena.get?_set_self d (Arena.lt_size_of_get?_eq_some hs)
  · rw [if_neg ht]
    exact Arena.get?_set_of_ne q.cells d (Ne.symm ht)

theorem relinked_put {s : Nat} (hs : q.cell? s = some c) {d : Cell α}
    (hd : d.content = c.content) : Relinked q (q.put s d) where
  number := rfl
  lock := rfl
  stats := rfl
  size := Arena.size_set ..
  content := by
    intro t
    rw [cell?_put hs]
    split
    · rename_i ht
      rw [ht, hs, Option.map_some, Option.map_some, hd]
    · rfl

/-- The link behind a stretch of the chain is turned to another cell. -/
theorem linked_put_newer {older newer : Option Nat}
    (hl : Linked q.cell? older (xs ++ [e]) newer) (hnodup : ((xs ++ [e]).map (·.serial)).Nodup)
    (hc : q.cell? e.serial = some c) (newer' : Option Nat) :
    Linked (q.put e.serial { c with newer := newer' }).cell? older (xs ++ [e]) newer' := by
  have hput := cell?_put hc { c with newer := newer' }
  rw [List.map_append, List.nodup_append] at hnodup
  obtain ⟨hxs, ⟨content, hcell, hkind⟩, -⟩ := Linked.append_iff.1 hl
  rw [hc] at hcell
  cases hcell
  refine Linked.append_iff.2 ⟨hxs.congr fun e' he' => (hput _).trans (if_neg ?_),
    ⟨content, (hput _).trans (if_pos rfl), hkind⟩, trivial⟩
  exact hnodup.2.2 _ (List.mem_map_of_mem he') _ List.mem_cons_self

/-- The link before a stretch of the chain is turned to another cell. -/
theorem linked_put_older {older newer : Option Nat}
    (hl : Linked q.cell? older (e :: xs) newer) (hnodup : ((e :: xs).map (·.serial)).Nodup)
    (hc : q.cell? e.serial = some c) (older' : Option Nat) :
    Linked (q.put e.serial { c with older := older' }).cell? older' (e :: xs) newer := by
  have hput := cell?_put hc { c with older := older' }
  rw [List.map_cons, List.nodup_cons] at hnodup
  obtain ⟨⟨content, hcell, hkind⟩, hxs⟩ := hl
  rw [hc] at hcell
  cases hcell
  refine ⟨⟨content, (hput _).trans (if_pos rfl), hkind⟩,
    hxs.congr fun e' he' => (hput _).trans (if_neg fun hserial => ?_)⟩
  exact hnodup.1 (hserial ▸ List.mem_map_of_mem he')

theorem relinked_newest (q : Queue α) (newest : Option Nat) : Relinked q { q with newest } :=
  ⟨⟨rfl, rfl, rfl, fun _ => rfl⟩, rfl⟩

theorem run_alter_put (hc : q.cell? e.serial = some c) (change : Cell α → Cell α) :
    (alter e.serial change).run q = .ok () (q.put e.serial (change c)) :=
  run_alter change hc

/-! ## Joining the chain -/

theorem run_link (hch : Chain q xs) (hc : q.cell? e.serial = some c)
    (hkind : c.content.isSnapshot = e.isSnapshot) (hown : e.queue = q.number)
    (hnew : e.serial ∉ xs.map (·.serial)) :
    ∃ q', (link e.serial).run q = .ok () q' ∧ Chain q' (xs ++ [e]) ∧ Relinked q q' := by
  have hnodup : ((xs ++ [e]).map (·.serial)).Nodup := by
    rw [List.map_append, List.nodup_append]
    refine ⟨hch.nodup, List.pairwise_singleton _ _, ?_⟩
    rintro s hs t ht rfl
    rw [List.map_singleton, List.mem_singleton] at ht
    exact hnew (ht ▸ hs)
  have hown' : ∀ e' ∈ xs ++ [e], e'.queue = q.number := by
    intro e' he'
    rcases List.mem_append.1 he' with he' | he'
    · exact hch.own e' he'
    · rw [List.mem_singleton.1 he']
      exact hown
  have hne : ∀ e' ∈ xs, e'.serial ≠ e.serial := by
    intro e' he' hserial
    exact hnew (hserial ▸ List.mem_map_of_mem he')
  have hput := cell?_put hc ⟨c.content, lastOr none xs, none⟩
  have hself : (q.put e.serial ⟨c.content, lastOr none xs, none⟩).cell? e.serial =
      some ⟨c.content, lastOr none xs, none⟩ := by
    rw [hput, if_pos rfl]
  have hxs : Linked (q.put e.serial ⟨c.content, lastOr none xs, none⟩).cell? none xs none :=
    hch.linked.congr fun e' he' => by rw [hput, if_neg (hne e' he')]
  -- Besides the new cell only the newest one of the chain is written, and an empty chain has none.
  rcases List.eq_nil_or_concat xs with rfl | ⟨ys, last, rfl⟩
  · refine ⟨{ q.put e.serial ⟨c.content, none, none⟩ with newest := some e.serial }, ?_, ?_, ?_⟩
    · rw [link, run_bind_of_run_eq_ok (EStateM.run_get _), hch.newest,
        run_bind_of_run_eq_ok (run_alter_put hc _)]
      rfl
    · exact ⟨⟨⟨c.content, hself, hkind⟩, trivial⟩, hnodup, rfl, hown'⟩
    · exact (relinked_put hc (d := ⟨c.content, none, none⟩) rfl).trans (relinked_newest _ _)
  · rw [List.concat_eq_append] at hxs hnodup hown' hne hself ⊢
    rw [lastOr_concat] at hxs hself
    obtain ⟨d, hd, -⟩ := hxs.cell_of_mem (List.mem_append_right ys (List.mem_singleton_self last))
    have hlast := cell?_put hd { d with newer := some e.serial }
    have hdiff : e.serial ≠ last.serial :=
      Ne.symm (hne last (List.mem_append_right _ (List.mem_singleton_self _)))
    refine ⟨{ (q.put e.serial ⟨c.content, some last.serial, none⟩).put last.serial
      { d with newer := some e.serial } with newest := some e.serial }, ?_, ?_, ?_⟩
    · have hnewest : q.newest = some last.serial := by
        rw [hch.newest, List.concat_eq_append, lastOr_concat]
      rw [link, run_bind_of_run_eq_ok (EStateM.run_get _), hnewest,
        run_bind_of_run_eq_ok (run_alter_put hc _)]
      show (alter last.serial _ >>= _ : QueueM α Unit).run _ = _
      rw [run_bind_of_run_eq_ok (run_alter_put hd _)]
      rfl
    · refine ⟨Linked.append_iff.2 ⟨?_, ⟨c.content, ?_, hkind⟩, trivial⟩, hnodup, ?_, hown'⟩
      · rw [List.map_append] at hnodup
        exact linked_put_newer hxs (List.nodup_append.1 hnodup).1 hd _
      · rw [lastOr_concat]
        exact ((hlast _).trans (if_neg hdiff)).trans hself
      · rw [lastOr_concat]
    · have hfirst := relinked_put hc (d := ⟨c.content, some last.serial, none⟩) rfl
      have hsecond := relinked_put hd (d := { d with newer := some e.serial }) rfl
      exact (hfirst.trans hsecond).trans (relinked_newest _ _)

/-! ## Walks -/

theorem cell_eq_ok (hc : q.cell? e.serial = some c) : q.cell e.serial = .ok c :=
  cell_eq_ok_iff.2 hc

/-- A chain is no longer than the number of cells that were ever made. -/
theorem length_le_of_chain (hch : Chain q xs) : xs.length ≤ q.cells.size := by
  have hsub : xs.map (·.serial) ⊆ List.range q.cells.size := by
    intro s hs
    obtain ⟨e, he, rfl⟩ := List.mem_map.1 hs
    obtain ⟨c, hc, -⟩ := hch.linked.cell_of_mem he
    exact List.mem_range.2 (Arena.lt_size_of_get?_eq_some hc)
  have hle := (hch.nodup.subperm hsub).length_le
  rwa [List.length_map, List.length_range] at hle

theorem newerWalkWithin_eq_ok {older : Option Nat} {steps : Nat}
    (hl : Linked q.cell? older xs none) (hsteps : xs.length ≤ steps) :
    q.newerWalkWithin steps (firstOr xs none) = .ok (xs.map (·.serial)) := by
  induction xs generalizing older steps with
  | nil => cases steps <;> rfl
  | cons e rest ih =>
    obtain ⟨⟨content, hcell, -⟩, hrest⟩ := hl
    obtain ⟨n, rfl⟩ : ∃ n, steps = n + 1 := Nat.exists_eq_succ_of_ne_zero (by
      rw [List.length_cons] at hsteps
      omega)
    rw [firstOr, newerWalkWithin, cell_eq_ok hcell]
    show (do pure (e.serial :: (← q.newerWalkWithin n (firstOr rest none)))) = _
    rw [ih hrest (Nat.le_of_succ_le_succ hsteps)]
    rfl

theorem olderWalkWithin_eq_ok {newer : Option Nat} {steps : Nat}
    (hl : Linked q.cell? none xs newer) (hsteps : xs.length ≤ steps) :
    q.olderWalkWithin steps (lastOr none xs) = .ok (xs.reverse.map (·.serial)) := by
  induction xs using List.reverseRecOn generalizing newer steps with
  | nil => cases steps <;> rfl
  | append_singleton xs e ih =>
    obtain ⟨hxs, ⟨content, hcell, -⟩, -⟩ := Linked.append_iff.1 hl
    obtain ⟨n, rfl⟩ : ∃ n, steps = n + 1 := Nat.exists_eq_succ_of_ne_zero (by
      rw [List.length_append, List.length_singleton] at hsteps
      omega)
    rw [List.length_append, List.length_singleton] at hsteps
    rw [lastOr_concat, olderWalkWithin, cell_eq_ok hcell]
    show (do pure (e.serial :: (← q.olderWalkWithin n (lastOr none xs)))) = _
    rw [ih hxs (Nat.le_of_succ_le_succ hsteps), List.reverse_append]
    rfl

/-- The handles up to the next snapshot are those that come before it in the list. -/
theorem handlesUpToSnapshot_eq_ok {older : Option Nat} {steps : Nat}
    (hl : Linked q.cell? older xs none) (hsteps : xs.length ≤ steps) :
    q.handlesUpToSnapshot steps (firstOr xs none) =
      .ok ((xs.takeWhile isHandle).map (·.serial), firstOr (xs.dropWhile isHandle) none) := by
  induction xs generalizing older steps with
  | nil => cases steps <;> rfl
  | cons e rest ih =>
    obtain ⟨⟨content, hcell, hkind⟩, hrest⟩ := hl
    obtain ⟨n, rfl⟩ : ∃ n, steps = n + 1 := Nat.exists_eq_succ_of_ne_zero (by
      rw [List.length_cons] at hsteps
      omega)
    rw [firstOr, handlesUpToSnapshot, cell_eq_ok hcell]
    show (if content.isSnapshot = true then _ else _ : Except Fault _) = _
    cases hsnap : e.isSnapshot with
    | true =>
      have hstop : isHandle e = false := by rw [isHandle, hsnap]; rfl
      rw [hkind, hsnap, if_pos rfl, List.takeWhile_cons_of_neg (by simp [hstop]),
        List.dropWhile_cons_of_neg (by simp [hstop])]
      rfl
    | false =>
      have hgo : isHandle e = true := by rw [isHandle, hsnap]; rfl
      rw [hkind, hsnap, if_neg Bool.false_ne_true, List.takeWhile_cons_of_pos hgo,
        List.dropWhile_cons_of_pos hgo]
      show (q.handlesUpToSnapshot n (firstOr rest none) >>= _ : Except Fault _) = _
      rw [ih hrest (Nat.le_of_succ_le_succ hsteps)]
      rfl

/-! ## Leaving the chain -/

/-- With the oldest snapshot the handles up to the next snapshot leave the chain. -/
theorem run_unlinkSnapshot_of_oldest (hch : Chain q (e :: ys)) :
    ∃ q', (unlinkSnapshot e.serial).run q = .ok ((ys.takeWhile isHandle).map (·.serial)) q' ∧
      Chain q' (ys.dropWhile isHandle) ∧ Relinked q q' := by
  obtain ⟨⟨content, hcell, -⟩, hys⟩ := hch.linked
  have hnodup := (List.nodup_cons.1 hch.nodup).2
  have hown : ∀ e' ∈ ys.dropWhile isHandle, e'.queue = q.number := fun e' he' =>
    hch.own e' (List.mem_cons_of_mem _ ((List.dropWhile_suffix _).subset he'))
  have hlen : ys.length ≤ q.cells.size := by
    have := length_le_of_chain hch
    rw [List.length_cons] at this
    omega
  have hwalk := handlesUpToSnapshot_eq_ok hys hlen
  have hsplit : ys = ys.takeWhile isHandle ++ ys.dropWhile isHandle :=
    (List.takeWhile_append_dropWhile).symm
  have hrest : Linked q.cell? (lastOr (some e.serial) (ys.takeWhile isHandle))
      (ys.dropWhile isHandle) none := by
    rw [hsplit] at hys
    exact (Linked.append_iff.1 hys).2
  have hnodup' : ((ys.dropWhile isHandle).map (·.serial)).Nodup :=
    hnodup.sublist ((List.dropWhile_sublist _).map _)
  rw [unlinkSnapshot, run_bind_of_run_eq_ok (run_ask_of_eq_ok (cell_eq_ok hcell))]
  show ∃ q', (ask (fun q => q.handlesUpToSnapshot q.cells.size (firstOr ys none)) >>= _ :
    QueueM α _).run q = _ ∧ _
  rw [run_bind_of_run_eq_ok (run_ask_of_eq_ok hwalk)]
  -- The next snapshot becomes the old end of the chain, and without one nothing is left of it.
  cases hdrop : ys.dropWhile isHandle with
  | nil =>
    refine ⟨{ q with newest := none }, rfl, ⟨trivial, List.nodup_nil, rfl, ?_⟩,
      relinked_newest q none⟩
    intro e' he'
    cases he'
  | cons b bs =>
    rw [hdrop] at hrest hnodup' hown
    have ⟨⟨content', hb, _⟩, _⟩ := hrest
    have hturned := linked_put_older hrest hnodup' hb none
    refine ⟨q.put b.serial ⟨content', none, firstOr bs none⟩, ?_, ⟨?_, hnodup', ?_, hown⟩,
      relinked_put hb rfl⟩
    · show (alter b.serial ({ · with older := none }) >>= _ : QueueM α _).run q = _
      rw [run_bind_of_run_eq_ok (run_alter_put hb _)]
      rfl
    · exact hturned
    · show q.newest = _
      rw [hch.newest, hsplit, hdrop, ← List.cons_append, lastOr_append]
      rfl

/-- A snapshot that is not the oldest entry leaves the chain alone. -/
theorem run_unlinkSnapshot_of_newer {a : EntryId} (hch : Chain q ((xs ++ [a]) ++ e :: ys)) :
    ∃ q', (unlinkSnapshot e.serial).run q = .ok [] q' ∧ Chain q' ((xs ++ [a]) ++ ys) ∧
      Relinked q q' := by
  obtain ⟨hxs, ⟨content, hcell, -⟩, hys⟩ := Linked.append_iff.1 hch.linked
  rw [lastOr_concat] at hcell
  have hsub : ((xs ++ [a]) ++ ys).Sublist ((xs ++ [a]) ++ e :: ys) :=
    (List.sublist_cons_self e ys).append_left _
  have hnodup : (((xs ++ [a]) ++ ys).map (·.serial)).Nodup := hch.nodup.sublist (hsub.map _)
  have hown : ∀ e' ∈ (xs ++ [a]) ++ ys, e'.queue = q.number := fun e' he' =>
    hch.own e' (hsub.subset he')
  obtain ⟨c, ha, -⟩ := hxs.cell_of_mem (List.mem_append_right xs (List.mem_singleton_self a))
  have hputa := cell?_put ha { c with newer := firstOr ys none }
  have hparts := hnodup
  rw [List.map_append, List.nodup_append] at hparts
  -- The entry before the snapshot is linked past it first. What comes later does not see that.
  have hleft : Linked (q.put a.serial { c with newer := firstOr ys none }).cell? none (xs ++ [a])
      (firstOr ys none) := linked_put_newer hxs hparts.1 ha _
  have hne : ∀ e' ∈ ys, e'.serial ≠ a.serial := fun e' he' hserial =>
    hparts.2.2 _ (List.mem_map_of_mem (List.mem_append_right xs (List.mem_singleton_self a))) _
      (List.mem_map_of_mem he') hserial.symm
  have hright : Linked (q.put a.serial { c with newer := firstOr ys none }).cell?
      (some e.serial) ys none :=
    hys.congr fun e' he' => (hputa _).trans (if_neg (hne e' he'))
  have hfirst := relinked_put ha (d := { c with newer := firstOr ys none }) rfl
  rw [unlinkSnapshot, run_bind_of_run_eq_ok (run_ask_of_eq_ok (cell_eq_ok hcell))]
  show ∃ q', (alter a.serial ({ · with newer := firstOr ys none }) >>= _ : QueueM α _).run q = _ ∧ _
  rw [run_bind_of_run_eq_ok (run_alter_put ha _)]
  cases ys with
  | nil =>
    refine ⟨{ q.put a.serial { c with newer := none } with newest := some a.serial }, rfl, ?_,
      hfirst.trans (relinked_newest _ _)⟩
    refine ⟨?_, hnodup, ?_, hown⟩
    · rw [List.append_nil]
      exact hleft
    · rw [List.append_nil, lastOr_concat]
  | cons b bs =>
    have ⟨⟨content', hb, _⟩, _⟩ := hright
    have hturned := linked_put_older hright hparts.2.1 hb (some a.serial)
    have hputb := cell?_put hb ⟨content', some a.serial, firstOr bs none⟩
    have hsecond := relinked_put hb (d := ⟨content', some a.serial, firstOr bs none⟩) rfl
    refine ⟨(q.put a.serial { c with newer := some b.serial }).put b.serial
      ⟨content', some a.serial, firstOr bs none⟩, ?_,
      ⟨Linked.append_iff.2 ⟨hleft.congr fun e' he' => ?_, ?_⟩, hnodup, ?_, hown⟩,
      hfirst.trans hsecond⟩
    · show (alter b.serial ({ · with older := some a.serial }) >>= _ : QueueM α _).run _ = _
      rw [run_bind_of_run_eq_ok (run_alter_put hb _)]
      rfl
    · refine (hputb _).trans (if_neg fun hserial => ?_)
      exact hparts.2.2 _ (List.mem_map_of_mem he') _ (List.mem_map_of_mem List.mem_cons_self)
        hserial
    · rw [lastOr_concat]
      exact hturned
    · show q.newest = _
      rw [hch.newest, lastOr_append none (xs ++ [a]) (e :: b :: bs),
        lastOr_append none (xs ++ [a]) (b :: bs)]
      rfl

end Queue
end RopeStore.Deferral
