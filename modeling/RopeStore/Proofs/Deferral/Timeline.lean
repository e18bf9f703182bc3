import Mathlib.Data.List.Basic
import RopeStore.Proofs.Deferral.Sections

/-!
# What happened in which order

The history of a queue lists the snapshots that were put into its chain and the handles that were
deleted, in the order in which that happened. That `a` happened before `b` is that `[a, b]` is a
sublist of the history.

* `before_of_concat`, `before_iff_idxOf_lt`, `before_asymm`, `before_or_before`,
  `before_iff_of_sublist`, `before_iff_mem` : this order, in a history in which nothing happens twice;
* `filter_mem_of_sublist` : a part of a history is what is left of it when the rest is taken out;
* `Timeline q xs events` : the chain `xs` is a part of the history `events`, in the order of the
  history, and a handle that has left the chain was deleted before every snapshot that is in it;
* `Timeline.join`, `Timeline.pass`, `Timeline.leave` : what each section does to it;
* `Timeline.exists_before_iff` : a deleted handle is in the chain exactly as long as a snapshot is
  there that was made before the deletion.
-/

namespace RopeStore.Deferral
variable {α : Type} {q q' : Queue α} {xs events : List EntryId} {a b e h s : EntryId}

/-! ## Before and after -/

theorem before_of_concat (hpair : [a, b].Sublist (events ++ [e])) (hne : b ≠ e) :
    [a, b].Sublist events := by
  obtain ⟨l₁, l₂, hsplit, h₁, h₂⟩ := List.sublist_append_iff.1 hpair
  rcases List.sublist_singleton.1 h₂ with rfl | rfl
  · rw [List.append_nil] at hsplit
    rwa [hsplit]
  · have hlast : ([a, b] : List EntryId).getLast? = (l₁ ++ [e]).getLast? := by rw [hsplit]
    rw [List.getLast?_concat] at hlast
    exact absurd (Option.some.inj hlast) hne

/-- What happens before comes earlier in the list. -/
theorem before_iff_idxOf_lt (hnodup : events.Nodup) :
    [a, b].Sublist events ↔ b ∈ events ∧ events.idxOf a < events.idxOf b := by
  induction events with
  | nil => simp
  | cons x rest ih =>
    obtain ⟨hx, hrest⟩ := List.nodup_cons.1 hnodup
    by_cases hb : x = b
    · -- nothing comes before the first event
      subst hb
      rw [List.idxOf_cons_self, iff_false_right fun h => Nat.not_lt_zero _ h.2]
      intro hsub
      rcases List.sublist_cons_iff.1 hsub with hsub | ⟨r, hr, hsub⟩
      · exact hx (hsub.subset (List.mem_cons_of_mem _ List.mem_cons_self))
      · cases hr
        exact hx (hsub.subset List.mem_cons_self)
    · by_cases ha : x = a
      · subst ha
        simp [List.idxOf_cons_ne _ hb, Ne.symm hb]
      · have hskip : [a, b].Sublist (x :: rest) ↔ [a, b].Sublist rest := by
          rw [List.sublist_cons_iff]
          apply or_iff_left
          rintro ⟨r, hr, -⟩
          cases hr
          exact ha rfl
        rw [hskip, ih hrest, List.idxOf_cons_ne _ hb, List.idxOf_cons_ne _ ha]
        simp [Ne.symm hb]

theorem before_asymm (hnodup : events.Nodup) (hab : [a, b].Sublist events) :
    ¬ [b, a].Sublist events := by
  rw [before_iff_idxOf_lt hnodup] at hab ⊢
  omega

theorem before_or_before (hnodup : events.Nodup) (ha : a ∈ events) (hb : b ∈ events)
    (hne : a ≠ b) : [a, b].Sublist events ∨ [b, a].Sublist events := by
  have hidx : events.idxOf a ≠ events.idxOf b := fun heq => hne ((List.idxOf_inj ha).1 heq)
  rw [before_iff_idxOf_lt hnodup, before_iff_idxOf_lt hnodup, and_iff_right hb, and_iff_right ha]
  exact Nat.lt_or_gt_of_ne hidx

/-- What comes before another thing in a part of a history comes before it in all of it. -/
theorem before_iff_of_sublist (hsub : xs.Sublist events) (hnodup : events.Nodup) (ha : a ∈ xs)
    (hb : b ∈ xs) : [a, b].Sublist xs ↔ [a, b].Sublist events := by
  constructor
  · exact fun hab => hab.trans hsub
  · intro hab
    have hne : a ≠ b := fun heq => by
      subst heq
      exact before_asymm hnodup hab hab
    apply (before_or_before (hsub.nodup hnodup) ha hb hne).resolve_right
    intro hba
    exact before_asymm hnodup hab (hba.trans hsub)

/-- What comes after an event is what stands behind it. -/
theorem before_iff_mem {as ys : List EntryId} (hnodup : (as ++ a :: ys).Nodup) :
    [a, b].Sublist (as ++ a :: ys) ↔ b ∈ ys := by
  constructor
  · intro hab
    have hmem : b ∈ as ++ a :: ys := hab.subset (List.mem_cons_of_mem _ List.mem_cons_self)
    rcases List.mem_append.1 hmem with hbefore | hbehind
    · have hba : [b, a].Sublist (as ++ a :: ys) :=
        (List.singleton_sublist.2 hbefore).append (List.singleton_sublist.2 List.mem_cons_self)
      exact absurd hba (before_asymm hnodup hab)
    · apply (List.mem_cons.1 hbehind).resolve_left
      intro heq
      subst heq
      exact before_asymm hnodup hab hab
  · intro hb
    have hbehind : [a, b].Sublist (a :: ys) := (List.singleton_sublist.2 hb).cons_cons a
    exact hbehind.trans (List.sublist_append_right as _)

theorem filter_mem_of_sublist (hsub : xs.Sublist events) (hnodup : events.Nodup) :
    events.filter (· ∈ xs) = xs := by
  induction hsub with
  | slnil => rfl
  | @cons l l' a hsub ih =>
    obtain ⟨ha, hrest⟩ := List.nodup_cons.1 hnodup
    rw [List.filter_cons_of_neg, ih hrest]
    simpa using fun hmem => ha (hsub.subset hmem)
  | @cons_cons l l' a hsub ih =>
    obtain ⟨ha, hrest⟩ := List.nodup_cons.1 hnodup
    have hrest' : l'.filter (· ∈ a :: l) = l'.filter (· ∈ l) := by
      apply List.filter_congr
      intro b hb
      have hne : b ≠ a := fun heq => ha (heq ▸ hb)
      simp [hne]
    rw [List.filter_cons_of_pos (by simp), hrest', ih hrest]

/-- A handle that leaves the chain was deleted before all that stays. -/
theorem before_of_leaving (hh : h ∈ leaving xs e) (hs : s ∈ staying xs e) : [h, s].Sublist xs := by
  unfold leaving at hh
  unfold staying at hs
  by_cases hhead : xs.head? = some e
  · rw [if_pos hhead] at hh hs
    obtain ⟨ys, rfl⟩ : ∃ ys, xs = e :: ys := ⟨xs.tail, List.eq_cons_of_mem_head? hhead⟩
    rw [List.tail_cons] at hh hs
    have hpair := (List.singleton_sublist.2 hh).append (List.singleton_sublist.2 hs)
    rw [List.takeWhile_append_dropWhile] at hpair
    exact hpair.trans (List.sublist_cons_self e ys)
  · rw [if_neg hhead] at hh
    cases hh

theorem isHandle_of_leaving (hh : h ∈ leaving xs e) : isHandle h = true := by
  unfold leaving at hh
  split at hh
  · exact List.mem_takeWhile_imp hh
  · cases hh

theorem not_mem_leaving (hsnap : h.isSnapshot = true) : h ∉ leaving xs e :=
  fun hmem => ne_of_isHandle (isHandle_of_leaving hmem) hsnap rfl

theorem mem_leaving_or_staying (hh : h ∈ xs) (hne : h ≠ e) :
    h ∈ leaving xs e ∨ h ∈ staying xs e := by
  unfold leaving staying
  by_cases hhead : xs.head? = some e
  · rw [if_pos hhead, if_pos hhead]
    obtain ⟨ys, rfl⟩ : ∃ ys, xs = e :: ys := ⟨xs.tail, List.eq_cons_of_mem_head? hhead⟩
    have hys := (List.mem_cons.1 hh).resolve_left hne
    rw [List.tail_cons, ← List.mem_append, List.takeWhile_append_dropWhile]
    exact hys
  · rw [if_neg hhead, if_neg hhead]
    exact Or.inr ((List.mem_erase_of_ne hne).2 hh)

theorem not_mem_staying_of_leaving (hnodup : xs.Nodup) (hh : h ∈ leaving xs e) :
    h ∉ staying xs e := by
  intro hs
  have hpair := before_of_leaving hh hs
  exact before_asymm hnodup hpair hpair

theorem self_not_mem_staying (hnodup : xs.Nodup) : e ∉ staying xs e := by
  unfold staying
  by_cases hhead : xs.head? = some e
  · rw [if_pos hhead]
    obtain ⟨ys, rfl⟩ : ∃ ys, xs = e :: ys := ⟨xs.tail, List.eq_cons_of_mem_head? hhead⟩
    intro hmem
    exact (List.nodup_cons.1 hnodup).1 ((List.dropWhile_sublist _).subset hmem)
  · rw [if_neg hhead]
    exact hnodup.not_mem_erase

/-! ## The history of a queue -/

/-- The chain `xs` of `q` is a part of the history, and a deleted handle that is not in it was
deleted before all snapshots that are. -/
structure Timeline (q : Queue α) (xs events : List EntryId) : Prop where
  orderly : Orderly q xs
  sub : xs.Sublist events
  nodup : events.Nodup
  late : ∀ h ∈ events, isHandle h = true → h ∉ xs → ∀ s ∈ xs, ¬ [s, h].Sublist events
  counted : q.stats.reclaimed + xs.countP isHandle ≤ events.countP isHandle

namespace Timeline

theorem late_concat (ht : Timeline q xs events) (hnew : e ∉ events) :
    ∀ h ∈ events, isHandle h = true → h ∉ xs → ∀ s ∈ xs, ¬ [s, h].Sublist (events ++ [e]) := by
  intro h hh hhandle hout s hs hpair
  refine ht.late h hh hhandle hout s hs (before_of_concat hpair ?_)
  rintro rfl
  exact hnew hh

theorem join (ht : Timeline q xs events) (hnew : e ∉ events) (ho : Orderly q' (xs ++ [e]))
    (hreclaimed : q'.stats.reclaimed = q.stats.reclaimed) :
    Timeline q' (xs ++ [e]) (events ++ [e]) where
  orderly := ho
  sub := ht.sub.append_right [e]
  nodup := by
    rw [← List.concat_eq_append]
    exact ht.nodup.concat hnew
  late := by
    intro h hh hhandle hout s hs hpair
    rw [List.mem_append, not_or] at hout
    rw [List.mem_append] at hh
    have hold := hh.resolve_right hout.2
    rcases List.mem_append.1 hs with hs | hs
    · exact ht.late_concat hnew h hold hhandle hout.1 s hs hpair
    · rw [List.mem_singleton.1 hs] at hpair
      have hpair := before_of_concat hpair fun heq => hout.2 (by rw [heq]; exact List.mem_cons_self)
      exact hnew (hpair.subset List.mem_cons_self)
  counted := by
    rw [hreclaimed, List.countP_append, List.countP_append]
    have := ht.counted
    omega

theorem pass (ht : Timeline q [] events) (hnew : h ∉ events) : Timeline q [] (events ++ [h]) where
  orderly := ht.orderly
  sub := List.nil_sublist _
  nodup := by
    rw [← List.concat_eq_append]
    exact ht.nodup.concat hnew
  late := by
    intro _ _ _ _ s hs
    cases hs
  counted := by
    rw [List.countP_append]
    have := ht.counted
    omega

/-- A snapshot leaves the chain with the handles that were waiting only for it. -/
theorem leave (ht : Timeline q xs events) (he : e ∈ xs) (hsnap : e.isSnapshot = true)
    (ho : Orderly q' (staying xs e))
    (hreclaimed : q'.stats.reclaimed ≤ q.stats.reclaimed + (leaving xs e).length) :
    Timeline q' (staying xs e) events where
  orderly := ho
  sub := (staying_sublist xs e).trans ht.sub
  nodup := ht.nodup
  late := by
    intro h hh hhandle hout s hs
    by_cases hin : h ∈ xs
    · have hleave := (mem_leaving_or_staying hin (ne_of_isHandle hhandle hsnap)).resolve_right hout
      exact before_asymm ht.nodup ((before_of_leaving hleave hs).trans ht.sub)
    · exact ht.late h hh hhandle hin s ((staying_sublist xs e).subset hs)
  counted := by
    have := ht.counted
    have := countP_staying he hsnap
    omega

/-- **A deleted handle is in the chain exactly as long as a snapshot is in it that was made before
the deletion.** -/
theorem exists_before_iff (ht : Timeline q xs events) (hh : h ∈ events)
    (hhandle : isHandle h = true) :
    h ∈ xs ↔ ∃ s ∈ xs, s.isSnapshot = true ∧ [s, h].Sublist events := by
  constructor
  · intro hin
    obtain ⟨s, rest, rfl⟩ := List.exists_cons_of_ne_nil (List.ne_nil_of_mem hin)
    have hsnap := ht.orderly.oldest s rfl
    have hrest := (List.mem_cons.1 hin).resolve_left (ne_of_isHandle hhandle hsnap)
    exact ⟨s, List.mem_cons_self, hsnap,
      ((List.singleton_sublist.2 hrest).cons_cons s).trans ht.sub⟩
  · rintro ⟨s, hs, -, hpair⟩
    by_contra hout
    exact ht.late h hh hhandle hout s hs hpair

end Timeline

theorem timeline_new (number : Nat) (kind : LockKind) :
    Timeline (Queue.new number kind : Queue α) [] [] where
  orderly := orderly_new number kind
  sub := List.nil_sublist _
  nodup := List.nodup_nil
  late := by
    intro h hh
    cases hh
  counted := Nat.le_refl _

end RopeStore.Deferral
