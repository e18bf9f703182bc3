import Mathlib.Data.List.Basic
import RopeStore.Proofs.Deferral.Observers

/-!
# What a snapshot was shown stays

* `Chronicle.Later c c'` : the chronicle `c` can become `c'`, as one of a queue only grows;
* `Session.later_run`, `Cascade.later_run`, `World.later_run` : whatever is done makes it later;
* `Shows q c s h` : one of the observers of the snapshot `s` shows the handle `h`;
* `Lasts q c s h` : the payload of `h` is there, and all observers of `s` show it as soon as they show
  deleted handles at all;
* `shown_lasts` : what an observer of a snapshot shows lasts as long as this snapshot.
-/

namespace RopeStore.Deferral
variable {α : Type} {q q' : Queue α} {xs xs' doomed doomed' : List EntryId} {e h s : EntryId}
  {c c' c'' : Chronicle α} {payload : α} {ps : List (EntryId × α)}

/-! ## Later -/

/-- What happened by the chronicle `c` happened by `c'`, and then more may have happened. -/
structure Chronicle.Later (c c' : Chronicle α) : Prop where
  events : c.events <+: c'.events
  made : c.made ⊆ c'.made
  dropped : c.dropped <+: c'.dropped

namespace Chronicle.Later

theorem refl (c : Chronicle α) : c.Later c :=
  ⟨List.prefix_rfl, List.Subset.refl _, List.prefix_rfl⟩

theorem trans (h₁ : c.Later c') (h₂ : c'.Later c'') : c.Later c'' :=
  ⟨h₁.events.trans h₂.events, List.Subset.trans h₁.made h₂.made, h₁.dropped.trans h₂.dropped⟩

theorem opens (c : Chronicle α) (e : EntryId) : c.Later (c.opens e) :=
  { refl c with events := List.prefix_append .. }

theorem makes (c : Chronicle α) (h : EntryId) (payload : α) : c.Later (c.makes h payload) :=
  { refl c with made := List.subset_cons_self .. }

theorem deletes (c : Chronicle α) (h : EntryId) : c.Later (c.deletes h) :=
  { refl c with events := List.prefix_append .. }

theorem closes (c : Chronicle α) (e : EntryId) : c.Later (c.closes e) :=
  { refl c with }

theorem drops (hl : c.Later c') (ps : List (EntryId × α)) : c.Later (c'.drops ps) :=
  { hl with dropped := hl.dropped.trans (List.prefix_append ..) }

theorem mem_deleted (hl : c.Later c') (hh : h ∈ c.deleted) : h ∈ c'.deleted := by
  obtain ⟨hevent, hkind⟩ := Chronicle.mem_deleted.1 hh
  exact Chronicle.mem_deleted.2 ⟨hl.events.subset hevent, hkind⟩

theorem isDropped (hl : c.Later c') (hd : c.IsDropped h) : c'.IsDropped h :=
  List.map_subset _ hl.dropped.subset hd

end Chronicle.Later

namespace Session

theorem Notes.later {act : Act α} (h : Notes c act c') : c.Later c' := by
  cases h with
  | same => exact .refl c
  | opens e => exact .opens c e
  | makes h payload => exact .makes c h payload
  | deletes h ps => exact (Chronicle.Later.deletes c h).drops ps
  | closes e ps => exact (Chronicle.Later.closes c e).drops ps

theorem later_step (session : Session α) (act : Act α) :
    session.chronicle.Later (session.step act).chronicle :=
  (session.notes_step act).later

theorem later_run (session : Session α) (acts : List (Act α)) :
    session.chronicle.Later (session.run acts).chronicle := by
  induction acts generalizing session with
  | nil => exact .refl _
  | cons act rest ih => exact (session.later_step act).trans (ih _)

end Session

namespace Cascade
variable {cascade : Cascade α}

theorem later_after {β : Type} {next : β → List Task} {made : β → Chronicle α} {below : List Task}
    {failed : Chronicle α} (hmade : ∀ b, cascade.chronicle.Later (made b))
    (hfailed : cascade.chronicle.Later failed) (outcome : EStateM.Result Fault (Queue α) β) :
    cascade.chronicle.Later (cascade.after next made below failed outcome).chronicle := by
  cases outcome with
  | ok b queue => exact hmade b
  | error fault queue => exact hfailed

theorem later_call (cascade : Cascade α) (act : Session.Act α) :
    cascade.chronicle.Later (cascade.call act).chronicle := by
  have hrefl := Chronicle.Later.refl cascade.chronicle
  cases act with
  | openSnapshot => exact later_after (.opens _) hrefl _
  | newHandle payload => exact later_after (.makes _ · payload) hrefl _
  | deleteHandle h =>
    rw [Cascade.call]
    split
    · exact later_after (fun _ => .deletes _ h) (.deletes _ h) _
    · exact hrefl
  | dropSnapshot e =>
    rw [Cascade.call]
    split
    · exact later_after (fun _ => .closes _ e) (.closes _ e) _
    · exact hrefl

theorem later_proceed (cascade : Cascade α) :
    cascade.chronicle.Later cascade.proceed.chronicle := by
  have hrefl := Chronicle.Later.refl cascade.chronicle
  rw [proceed]
  split
  · exact later_after (fun _ => hrefl.drops _) hrefl _
  · exact later_after (fun _ => hrefl) hrefl _
  · exact hrefl
  · exact hrefl
  · exact hrefl

theorem later_run (cascade : Cascade α) (moves : List (Move α)) :
    cascade.chronicle.Later (cascade.run moves).chronicle := by
  induction moves generalizing cascade with
  | nil => exact .refl _
  | cons move rest ih =>
    refine .trans ?_ (ih (cascade.step move))
    cases move with
    | call act =>
      rw [step]
      split
      · exact cascade.later_call act
      · exact .refl _
    | proceed => exact cascade.later_proceed

end Cascade

namespace World
variable {world : World α}

theorem later_after {β : Type} {i : Nat} {next : β → Task} {made : β → Chronicle α}
    {failed : Chronicle α} (hmade : ∀ b, world.chronicle.Later (made b))
    (hfailed : world.chronicle.Later failed) (outcome : EStateM.Result Fault (Queue α) β) :
    world.chronicle.Later (world.after i next made failed outcome).chronicle := by
  cases outcome with
  | ok b queue => exact hmade b
  | error fault queue => exact hfailed

theorem later_begin (world : World α) (i : Nat) (move : Move α) :
    world.chronicle.Later (world.begin i move).chronicle := by
  have hrefl := Chronicle.Later.refl world.chronicle
  cases move with
  | openSnapshot => exact later_after (.opens _) hrefl _
  | newHandle payload => exact later_after (.makes _ · payload) hrefl _
  | deleteHandle h =>
    rw [begin]
    split
    · split
      · exact .deletes _ h
      · exact hrefl
    · exact hrefl
  | dropSnapshot e =>
    rw [begin]
    split
    · exact later_after (fun _ => .closes _ e) (.closes _ e) _
    · exact hrefl
  | proceed => exact hrefl

theorem later_proceed (world : World α) (i : Nat) (task : Task) :
    world.chronicle.Later (world.proceed i task).chronicle := by
  have hrefl := Chronicle.Later.refl world.chronicle
  rw [proceed.eq_def]
  split
  · exact later_after (fun _ => .deletes _ _) hrefl _
  · exact later_after (fun _ => hrefl.drops _) hrefl _
  · exact later_after (fun _ => hrefl) hrefl _
  · exact hrefl
  · exact hrefl
  · exact hrefl

theorem later_run (world : World α) (schedule : List (Nat × Move α)) :
    world.chronicle.Later (world.run schedule).chronicle := by
  induction schedule generalizing world with
  | nil => exact .refl _
  | cons turn rest ih =>
    refine .trans ?_ (ih (world.step turn.1 turn.2))
    unfold step
    split
    · exact world.later_proceed ..
    · exact world.later_begin ..
    · exact .refl _

end World

/-! ## What an observer shows -/

/-- What `select` finds in the payload of `h`, and of no other handle, is `b`. -/
structure Chronicle.Marks {β : Type} (c : Chronicle α) (select : α → Option β) (h : EntryId) (b : β) :
    Prop where
  own : ∃ payload, (h, payload) ∈ c.made ∧ select payload = some b
  only : ∀ p ∈ c.made, select p.2 = some b → p.1 = h

/-- One of the observers of the snapshot `s` shows the handle `h`. -/
inductive Shows (q : Queue α) (c : Chronicle α) (s h : EntryId) : Prop
  | listed {hs : List EntryId} (hrun : (Queue.safeHandles s).run q = .ok hs q) (hmem : h ∈ hs)
  | inspected {β : Type} {select : α → Option β} {b : β} {bs : List β}
    (hrun : (Queue.inspectDeleted s select).run q = .ok bs q) (hmem : b ∈ bs)
    (hmark : c.Marks select h b)
  | judged (hrun : (Queue.isSafeToInspect s (some h)).run q = .ok true q)

/-- The payload of `h` is there. The verdict is that it is safe, and once the handle is deleted, it is
listed and so is its payload. -/
structure Lasts (q : Queue α) (c : Chronicle α) (s h : EntryId) : Prop where
  undropped : ¬ c.IsDropped h
  held : ∃ payload, (h, payload) ∈ c.made ∧ Holds q h payload
  judged : (Queue.isSafeToInspect s (some h)).run q = .ok true q
  listed : h ∈ c.deleted → ∃ hs, (Queue.safeHandles s).run q = .ok hs q ∧ h ∈ hs
  inspected : h ∈ c.deleted → ∀ {β : Type} {select : α → Option β} {payload : α} {b : β},
    (h, payload) ∈ c.made → select payload = some b →
      ∃ bs, (Queue.inspectDeleted s select).run q = .ok bs q ∧ b ∈ bs

namespace Kept

/-- An observer shows handles that are not deleted, or that were deleted after the snapshot was
made. -/
theorem live_or_deletedSince_of_shows (hk : Kept q xs doomed c) (hs : s ∈ c.snapshots)
    (hh : h ∈ c.handles ∨ Pending q h) (hshows : Shows q c s h) :
    h ∈ c.handles ∨ h ∈ c.deletedSince s := by
  have hobs := hk.observed hs
  cases hshows with
  | listed hrun hmem =>
    rw [hobs.handles] at hrun
    cases hrun
    exact .inr hmem
  | inspected hrun hmem hmark =>
    obtain ⟨shown, hshown, hheld, hpayloads⟩ := hobs.payloads
    rw [hpayloads] at hrun
    cases hrun
    obtain ⟨p, hp, hselect⟩ := List.mem_filterMap.1 hmem
    rw [← hshown, ← hmark.only p (hheld p hp).1 hselect]
    exact .inr (List.mem_map_of_mem hp)
  | judged hrun =>
    refine hh.imp_right fun hpending => ?_
    obtain ⟨safe, hrun', hsafe⟩ := hobs.pending h hpending
    rw [hrun] at hrun'
    cases hrun'
    exact hsafe.1 rfl

/-- A handle that is deleted while a snapshot lives is deleted after this was made. -/
theorem live_or_deletedSince_of_later (hk : Kept q xs doomed c) (hk' : Kept q' xs' doomed' c')
    (hl : c.Later c') (hs : s ∈ c.snapshots) (hh : h ∈ c.handles ∨ h ∈ c.deletedSince s) :
    h ∈ c'.handles ∨ h ∈ c'.deletedSince s := by
  obtain ⟨more, hmore⟩ := hl.events
  have hsub : c.events.Sublist c'.events := hl.events.sublist
  rcases hh with hlive | hdeleted
  · obtain ⟨p, hp, rfl⟩ := List.mem_map.1 (hk.mem_made_of_live hlive)
    refine (hk'.live_or_deleted (List.mem_map_of_mem (hl.made hp))).imp_right fun hdeleted => ?_
    have hs' : s ∈ c.events := hk.timeline.sub.subset ((hk.live s).1 hs).1
    have hevent := (Chronicle.mem_deleted.1 hdeleted).1
    rw [← hmore, List.mem_append] at hevent
    have hnew : p.1 ∈ more := hevent.resolve_left (hk.not_mem_events_of_live hlive)
    have hbefore : [s, p.1].Sublist (c.events ++ more) :=
      (List.singleton_sublist.2 hs').append (List.singleton_sublist.2 hnew)
    exact Chronicle.mem_deletedSince.2 ⟨hdeleted, hmore ▸ hbefore⟩
  · obtain ⟨hin, hbefore⟩ := Chronicle.mem_deletedSince.1 hdeleted
    exact .inr (Chronicle.mem_deletedSince.2 ⟨hl.mem_deleted hin, hbefore.trans hsub⟩)

theorem lasts (hk : Kept q xs doomed c) (hs : s ∈ c.snapshots)
    (hh : h ∈ c.handles ∨ h ∈ c.deletedSince s) : Lasts q c s h := by
  have hobs := hk.observed hs
  have hundropped : ¬ c.IsDropped h := by
    rcases hh with hlive | hdeleted
    · exact hk.undropped_of_live hlive
    · obtain ⟨hin, hbefore⟩ := Chronicle.mem_deletedSince.1 hdeleted
      exact hk.undropped_of_watched hin ⟨s, hs, hbefore⟩
  have hsince : h ∈ c.deleted → h ∈ c.deletedSince s := by
    intro hin
    refine hh.resolve_left fun hlive => ?_
    exact hk.not_mem_events_of_live hlive (Chronicle.mem_deleted.1 hin).1
  constructor
  case undropped => exact hundropped
  case held =>
    have hmade : h ∈ c.made.map (·.1) := by
      rcases hh with hlive | hdeleted
      · exact hk.mem_made_of_live hlive
      · obtain ⟨hevent, hkind⟩ := Chronicle.mem_deleted.1 (Chronicle.mem_deletedSince.1 hdeleted).1
        exact hk.stock.origin h hevent hkind
    obtain ⟨p, hp, rfl⟩ := List.mem_map.1 hmade
    refine ⟨p.2, hp, (hk.stock.held p hp).resolve_left fun hdropped => hundropped ?_⟩
    exact List.mem_map_of_mem hdropped
  case judged =>
    rcases hh with hlive | hdeleted
    · exact hobs.undeleted h hlive
    · obtain ⟨safe, hrun, hsafe⟩ := hobs.pending h ((hobs.waiting h).1 hdeleted).1
      rwa [hsafe.2 hdeleted] at hrun
  case listed => exact fun hin => ⟨_, hobs.handles, hsince hin⟩
  case inspected =>
    intro hin β select payload b hmade hselect
    obtain ⟨shown, hshown, hheld, hpayloads⟩ := hobs.payloads
    refine ⟨_, hpayloads select, ?_⟩
    obtain ⟨p, hp, rfl⟩ := List.mem_map.1 (hshown ▸ hsince hin)
    have hholds : Holds q p.1 payload := (hk.stock.held _ hmade).resolve_left fun hdropped =>
      hundropped (List.mem_map.2 ⟨_, hdropped, rfl⟩)
    exact List.mem_filterMap.2 ⟨p, hp, (hheld p hp).2.unique hholds ▸ hselect⟩

/-- What a snapshot was shown lasts as long as it lives. -/
theorem lasts_of_shows (hk : Kept q xs doomed c) (hk' : Kept q' xs' doomed' c') (hl : c.Later c')
    (hs : s ∈ c.snapshots) (hs' : s ∈ c'.snapshots) (hh : h ∈ c.handles ∨ Pending q h)
    (hshows : Shows q c s h) : Lasts q' c' s h :=
  hk'.lasts hs' (live_or_deletedSince_of_later hk hk' hl hs
    (hk.live_or_deletedSince_of_shows hs hh hshows))

end Kept

/-- **Whatever one client, a client with destructors that use the queue, or threads do: what an observer
of a snapshot shows at some time, of handles that are not deleted or wait in the chain, lasts as long as
the snapshot lives. The payload is not dropped, and all observers keep showing it.** -/
theorem shown_lasts (number : Nat) (kind : LockKind) :
    (∀ acts more : List (Session.Act α),
      let before := (Session.start number kind).run acts
      let after := before.run more
      ∀ s ∈ before.chronicle.snapshots, s ∈ after.chronicle.snapshots →
        ∀ h, h ∈ before.chronicle.handles ∨ Pending before.queue h →
          Shows before.queue before.chronicle s h → Lasts after.queue after.chronicle s h) ∧
    (∀ moves more : List (Cascade.Move α),
      let before := (Cascade.start number kind).run moves
      let after := before.run more
      ∀ s ∈ before.chronicle.snapshots, s ∈ after.chronicle.snapshots →
        ∀ h, h ∈ before.chronicle.handles ∨ Pending before.queue h →
          Shows before.queue before.chronicle s h → Lasts after.queue after.chronicle s h) ∧
    ∀ (threads : Nat) (schedule more : List (Nat × World.Move α)),
      let before := (World.start threads number kind).run schedule
      let after := before.run more
      ∀ s ∈ before.chronicle.snapshots, s ∈ after.chronicle.snapshots →
        ∀ h, h ∈ before.chronicle.handles ∨ Pending before.queue h →
          Shows before.queue before.chronicle s h → Lasts after.queue after.chronicle s h := by
  refine ⟨fun acts more s hs hs' h hh hshows => ?_, fun moves more s hs hs' h hh hshows => ?_,
    fun threads schedule more s hs hs' h hh hshows => ?_⟩
  · have hstart : (Session.start number kind : Session α).Sound := Session.sound_start number kind
    have hsound := hstart.run acts
    obtain ⟨_, _, hk', -⟩ := hsound.run more
    obtain ⟨_, _, hk, -⟩ := hsound
    exact hk.lasts_of_shows hk' (Session.later_run _ more) hs hs' hh hshows
  · have hsound := (Cascade.sound_start number kind).run moves
    obtain ⟨_, _, hk, -⟩ := hsound.works.kept
    obtain ⟨_, _, hk', -⟩ := (hsound.run more).works.kept
    exact hk.lasts_of_shows hk' (Cascade.later_run _ more) hs hs' hh hshows
  · have hsound := (World.sound_start threads number kind).run schedule
    obtain ⟨_, _, hk, -⟩ := hsound.kept
    obtain ⟨_, _, hk', -⟩ := (hsound.run more).kept
    exact hk.lasts_of_shows hk' (World.later_run _ more) hs hs' hh hshows

/-- A handle that is safe while it is not deleted is listed when it is, also beside a newer snapshot. -/
theorem shown_lasts_deletion :
    let before := (Session.start 0 .checking).run [.openSnapshot, .newHandle 'h']
    let after := before.run [.openSnapshot, .deleteHandle ⟨0, 1, false⟩]
    Shows before.queue before.chronicle ⟨0, 0, true⟩ ⟨0, 1, false⟩ ∧
      ⟨0, 1, false⟩ ∈ after.chronicle.deleted ∧
      Lasts after.queue after.chronicle ⟨0, 0, true⟩ ⟨0, 1, false⟩ := by
  intro before after
  have hshows : Shows before.queue before.chronicle ⟨0, 0, true⟩ ⟨0, 1, false⟩ := .judged rfl
  refine ⟨hshows, by decide, ?_⟩
  exact (shown_lasts 0 .checking).1 [.openSnapshot, .newHandle 'h']
    [.openSnapshot, .deleteHandle ⟨0, 1, false⟩] ⟨0, 0, true⟩ (by decide) (by decide) ⟨0, 1, false⟩
    (.inl (by decide)) hshows

end RopeStore.Deferral
