import Mathlib.Data.List.Basic
import Mathlib.Data.List.Nodup
import RopeStore.Proofs.Deferral.Sections
import RopeStore.Trial.Model

/-!
# What the log says about deleted handles

A deletion that has to wait is logged, and so is the end of its wait. Between the two lines the handle
is in the chain.

* `deferrals`, `reclaimings` : the handles whose wait begins, and those whose wait is over, in the order
  of the lines;
* `InOrder lines` : at every line, the waits that are over are the first that began;
* `Announces lines` : every drop of a snapshot announces as many ends of waits as the next lines tell;
* `Accounts lines xs` : the chain `xs` holds the handles that the lines leave waiting;
* `Accounts.plain`, `Accounts.opens`, `Accounts.defers`, `Accounts.drops` : the lines that are written,
  each with what happens to the chain.
-/

namespace RopeStore.Trial
open Deferral (EntryId isHandle leaving staying)

/-! ## Lines -/

def Line.deferred? : Line → Option EntryId
  | .store (.deferred h) => some h
  | _ => none

def Line.reclaimed? : Line → Option EntryId
  | .store (.reclaiming h) => some h
  | _ => none

def Line.reclaims (line : Line) : Bool := line.reclaimed?.isSome

def Line.announces : Line → Bool
  | .store (.snapshotDropped _ _) => true
  | _ => false

/-- A line that says nothing about a wait. -/
structure Line.IsPlain (line : Line) : Prop where
  deferred : line.deferred? = none
  reclaimed : line.reclaimed? = none
  announces : line.announces = false

/-- The handles whose deletion had to wait. -/
def deferrals (lines : List Line) : List EntryId := lines.filterMap Line.deferred?

/-- The handles whose wait was over. -/
def reclaimings (lines : List Line) : List EntryId := lines.filterMap Line.reclaimed?

variable {lines block : List Line} {line : Line} {xs ys gone : List EntryId} {e h : EntryId}

theorem deferrals_append (lines block : List Line) :
    deferrals (lines ++ block) = deferrals lines ++ deferrals block :=
  List.filterMap_append

theorem reclaimings_append (lines block : List Line) :
    reclaimings (lines ++ block) = reclaimings lines ++ reclaimings block :=
  List.filterMap_append

/-- The lines of a snapshot `e` that is dropped and of the handles that waited only for it. -/
def dropLines (e : EntryId) (gone : List EntryId) : List Line :=
  .store (.snapshotDropped e gone.length) :: gone.map fun h => .store (.reclaiming h)

theorem deferrals_dropLines (e : EntryId) (gone : List EntryId) :
    deferrals (dropLines e gone) = [] := by
  refine List.filterMap_eq_nil_iff.2 fun line hline => ?_
  rcases List.mem_cons.1 hline with rfl | hline
  · rfl
  · obtain ⟨h, -, rfl⟩ := List.mem_map.1 hline
    rfl

theorem reclaimings_dropLines (e : EntryId) (gone : List EntryId) :
    reclaimings (dropLines e gone) = gone := by
  show reclaimings (gone.map fun h => Line.store (.reclaiming h)) = gone
  rw [reclaimings, List.filterMap_map]
  exact List.filterMap_some

/-! ## The order of the waits -/

/-- At every line, the waits that are over are the first that began. -/
def InOrder (lines : List Line) : Prop :=
  ∀ before, before <+: lines → reclaimings before <+: deferrals before

theorem inOrder_nil : InOrder [] := by
  intro before hbefore
  rw [List.prefix_nil.1 hbefore]
  exact List.prefix_refl _

/-- Waits can end that began before. -/
theorem InOrder.append (ho : InOrder lines)
    (hover : reclaimings (lines ++ block) <+: deferrals lines) : InOrder (lines ++ block) := by
  intro before hbefore
  rcases List.prefix_or_prefix_of_prefix hbefore (List.prefix_append lines block) with hold | hnew
  · exact ho before hold
  · have hends : reclaimings before <+: reclaimings (lines ++ block) := hbefore.filterMap _
    exact (hends.trans hover).trans (hnew.filterMap _)

theorem InOrder.mem_deferrals (ho : InOrder lines) {before rest : List Line}
    (hlines : lines = before ++ .store (.reclaiming h) :: rest) : h ∈ deferrals before := by
  have hupto : before ++ [.store (.reclaiming h)] <+: lines := by
    rw [hlines]
    exact (List.prefix_append_right_inj before).2 (List.prefix_append [_] rest)
  have hpre := ho _ hupto
  rw [reclaimings_append, deferrals_append] at hpre
  have hmem := hpre.subset (List.mem_append_right _ (List.mem_singleton_self h))
  rwa [show deferrals [.store (.reclaiming h)] = [] from rfl, List.append_nil] at hmem

/-! ## Announcements -/

/-- Every drop of a snapshot announces as many ends of waits as the next lines tell. -/
def Announces (lines : List Line) : Prop :=
  ∀ before e count rest, lines = before ++ .store (.snapshotDropped e count) :: rest →
    (rest.takeWhile Line.reclaims).length = count

theorem announces_of_forall (hall : ∀ line ∈ lines, line.announces = false) : Announces lines := by
  rintro before e count rest rfl
  exact nomatch hall _ (List.mem_append_right before List.mem_cons_self)

theorem announces_dropLines (e : EntryId) (gone : List EntryId) : Announces (dropLines e gone) := by
  intro before e' count rest hsplit
  rcases before with _ | ⟨first, before⟩
  · -- the announcement itself: all other lines end a wait
    obtain ⟨hfirst, rfl⟩ := List.cons.inj hsplit
    cases hfirst
    rw [List.takeWhile_eq_self_iff.2, List.length_map]
    intro line hline
    obtain ⟨h, -, rfl⟩ := List.mem_map.1 hline
    rfl
  · -- no other line announces anything
    have hrest := (List.cons.inj hsplit).2
    refine announces_of_forall (fun line hline => ?_) before e' count rest hrest
    obtain ⟨h, -, rfl⟩ := List.mem_map.1 hline
    rfl

/-- An announcement is kept as long as the next line does not end a wait. -/
theorem Announces.append (hl : Announces lines) (hb : Announces block)
    (hhead : ∀ line ∈ block.head?, line.reclaims = false) : Announces (lines ++ block) := by
  intro before e count rest hsplit
  rcases List.append_eq_append_iff.1 hsplit with ⟨mid, -, hblock⟩ | ⟨mid, hlines, hrest⟩
  · exact hb mid e count rest hblock
  · rcases mid with _ | ⟨first, mid⟩
    · exact hb [] e count rest hrest.symm
    · obtain ⟨rfl, hafter⟩ := List.cons.inj hrest
      have hstop : block.takeWhile Line.reclaims = [] := by
        cases block with
        | nil => rfl
        | cons line _ => exact List.takeWhile_cons_of_neg (by simp [hhead line rfl])
      have hsame : (mid ++ block).takeWhile Line.reclaims = mid.takeWhile Line.reclaims := by
        rw [List.takeWhile_append, hstop, List.append_nil]
        split
        · rename_i hfull
          exact ((List.takeWhile_sublist _).eq_of_length hfull).symm
        · rfl
      rw [hafter, ← hl before e count mid hlines]
      exact congrArg List.length hsame

/-! ## The log and the chain -/

/-- The chain `xs` holds the handles that the lines leave waiting, in the order of their deletion, and
what the lines say is right so far. -/
structure Accounts (lines : List Line) (xs : List EntryId) : Prop where
  waiting : deferrals lines = reclaimings lines ++ xs.filter isHandle
  once : (deferrals lines).Nodup
  inOrder : InOrder lines
  announces : Announces lines

theorem accounts_nil : Accounts [] [] where
  waiting := rfl
  once := List.nodup_nil
  inOrder := inOrder_nil
  announces := announces_of_forall fun _ hline => absurd hline List.not_mem_nil

namespace Accounts

theorem append (ha : Accounts lines xs) (hquiet : deferrals block = []) (hb : Announces block)
    (hhead : ∀ line ∈ block.head?, line.reclaims = false)
    (hover : reclaimings block ++ ys.filter isHandle = xs.filter isHandle) :
    Accounts (lines ++ block) ys := by
  have hwaiting : deferrals lines = reclaimings (lines ++ block) ++ ys.filter isHandle := by
    rw [ha.waiting, reclaimings_append, List.append_assoc, hover]
  have hsame : deferrals (lines ++ block) = deferrals lines := by
    rw [deferrals_append, hquiet, List.append_nil]
  refine ⟨hsame.trans hwaiting, ?_, ha.inOrder.append ?_, ha.announces.append hb hhead⟩
  · rw [hsame]
    exact ha.once
  · rw [hwaiting]
    exact List.prefix_append _ _

theorem plain (ha : Accounts lines xs) (hline : line.IsPlain)
    (hsame : ys.filter isHandle = xs.filter isHandle) : Accounts (lines ++ [line]) ys := by
  have hends : reclaimings [line] = [] := List.filterMap_cons_none hline.reclaimed
  refine ha.append (List.filterMap_cons_none hline.deferred) (announces_of_forall ?_) ?_ ?_
  · intro line' hmem
    rw [List.mem_singleton.1 hmem]
    exact hline.announces
  · intro line' hmem
    obtain rfl : line = line' := Option.some.inj hmem
    rw [Line.reclaims, hline.reclaimed]
    rfl
  · rw [hends, List.nil_append, hsame]

theorem opens (ha : Accounts lines xs) (hsnap : e.isSnapshot = true) :
    Accounts (lines ++ [.store (.snapshotMade e)]) (xs ++ [e]) := by
  refine ha.plain ⟨rfl, rfl, rfl⟩ ?_
  rw [List.filter_append, List.filter_cons_of_neg (by simp [isHandle, hsnap]), List.filter_nil,
    List.append_nil]

theorem defers (ha : Accounts lines xs) (hkind : isHandle h = true) (hnew : h ∉ deferrals lines) :
    Accounts (lines ++ [.store (.deferred h)]) (xs ++ [h]) where
  waiting := by
    rw [deferrals_append, reclaimings_append, ha.waiting, List.filter_append,
      List.filter_cons_of_pos hkind]
    simp [deferrals, reclaimings, Line.deferred?, Line.reclaimed?]
  once := by
    rw [deferrals_append]
    exact List.nodup_append.2 ⟨ha.once, List.nodup_singleton h, fun a hin b hb heq => by
      rw [heq, List.mem_singleton.1 hb] at hin
      exact hnew hin⟩
  inOrder := by
    apply ha.inOrder.append
    rw [reclaimings_append, ha.waiting]
    exact (List.prefix_append_right_inj _).2 (List.nil_prefix)
  announces := by
    refine ha.announces.append (announces_of_forall fun line hmem => ?_) fun line hmem => ?_
    · rw [List.mem_singleton.1 hmem]
      rfl
    · obtain rfl : .store (.deferred h) = line := Option.some.inj hmem
      rfl

/-- With a snapshot that is dropped, those leave the chain that waited only for it. -/
theorem drops (ha : Accounts lines xs) (he : e ∈ xs) (hsnap : e.isSnapshot = true) :
    Accounts (lines ++ dropLines e (leaving xs e)) (staying xs e) := by
  refine ha.append (deferrals_dropLines e _) (announces_dropLines e _) ?_ ?_
  · intro line hmem
    obtain rfl : _ = line := Option.some.inj hmem
    rfl
  · rw [reclaimings_dropLines]
    exact Deferral.leaving_append_filter_staying he hsnap

end Accounts
end RopeStore.Trial
