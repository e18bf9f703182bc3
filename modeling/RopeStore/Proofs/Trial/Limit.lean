import Mathlib.Algebra.BigOperators.Ring.Finset
import RopeStore.Proofs.Trial.Verdict
import RopeStore.Proofs.Trial.Weight

/-!
# What a trial keeps alive

A new node is refused if the bytes that are expected of all live nodes would exceed the limit. The bytes
that the heap keeps may be more than that: an append asks nobody, and a part of few bytes keeps a whole
node alive.

* `Mirrors.kept_le` : the heap keeps what is expected of the live nodes, and at most one whole node for
  each view;
* `Within limit done s` : after the operations `done`, the heap keeps at most what `allowance` allows;
* `Within.ends_step` : every operation stays within the allowance;
* `kept_le_allowance` : so does a whole trial, and without appends and parts the allowance is the limit;
* `limit_is_exceeded` : with one of either it is not.
-/

namespace RopeStore.Trial
variable {s t : State} {h : Heap Nat} {lives : List LiveNode} {keys : List Nat} {limit : Nat}
  {done : List Op} {op : Op}

/-! ## What operations cost -/

/-- The bytes that an operation asks the limit for. -/
def Op.requested? : Op → Option Nat
  | .newBuffer _ length _ | .newExternal _ length _ => some length.toNat
  | _ => none

/-- The bytes that an operation appends at most. -/
def Op.appended : Op → Nat
  | .append _ length _ => length.toNat
  | _ => 0

/-- The views that an operation makes at most. -/
def Op.parts : Op → Nat
  | .subRange .. => 1
  | _ => 0

/-- The bytes that may be kept after the operations `done`: the limit, what was appended, and a whole node
for each part that was made. -/
def allowance (limit : Nat) (done : List Op) : Nat :=
  limit + (done.map Op.appended).sum + SizeClass.maxLargeLength * (done.map Op.parts).sum

/-- One for an external node that is longer than any buffer. -/
def overlong : Body Nat → Nat
  | .external bytes _ => if SizeClass.maxLargeLength < bytes.length then 1 else 0
  | _ => 0

theorem charge_heldLength :
    Charge Body.heldLength fun op => op.requested?.getD 0 + op.appended where
  newBuffer _ length _ _ := by simp [Body.heldLength, Body.stored?, Op.requested?]
  newExternal _ length _ _ := by simp [Body.heldLength, Body.stored?, Op.requested?]
  subRange _ _ _ _ _ _ _ := Nat.zero_le _
  append _ length _ _ old count := by
    simp [Body.heldLength, Body.stored?, Op.requested?, Op.appended]

theorem charge_viewWeight : Charge Body.viewWeight Op.parts where
  newBuffer _ _ _ _ := Nat.le_refl _
  newExternal _ _ _ _ := Nat.le_refl _
  subRange _ _ _ _ _ _ _ := Nat.le_refl _
  append _ _ _ _ _ _ := Nat.le_refl _

theorem charge_overlong : Charge overlong fun _ => 0 where
  newBuffer _ _ _ _ := Nat.le_refl _
  newExternal _ length _ _ := by
    have hmax : UInt16.size ≤ SizeClass.maxLargeLength := by decide
    have hlength := length.toNat_lt_size
    rw [overlong, if_neg (by rw [List.length_replicate]; omega)]
  subRange _ _ _ _ _ _ _ := Nat.le_refl _
  append _ _ _ _ _ _ := Nat.le_refl _

/-! ## What the live nodes tell about the heap -/

/-- The bytes that are expected of the live nodes at one place. -/
def expectedAt (lives : List LiveNode) (i : Nat) : Nat :=
  (lives.map fun live => if live.node.index = i then live.expected.length else 0).sum

theorem sum_expectedAt_le (lives : List LiveNode) (bound : Nat) :
    ∑ i ∈ Finset.range bound, expectedAt lives i ≤ (lives.map (·.expected.length)).sum := by
  induction lives with
  | nil => simp [expectedAt]
  | cons live rest ih =>
    simp only [expectedAt, List.map_cons, List.sum_cons, Finset.sum_add_distrib,
      Finset.sum_ite_eq] at ih ⊢
    split <;> omega

theorem length_le_expectedAt {live : LiveNode} (hlive : live ∈ lives) :
    live.expected.length ≤ expectedAt lives live.node.index := by
  induction lives with
  | nil => cases hlive
  | cons first rest ih =>
    rw [expectedAt, List.map_cons, List.sum_cons]
    rcases List.mem_cons.1 hlive with rfl | hlive
    · rw [if_pos rfl]
      exact Nat.le_add_right _ _
    · exact Nat.le_trans (ih hlive) (Nat.le_add_left _ _)

namespace Mirrors

theorem heldLength_le (hm : Mirrors h lives keys) (hshort : h.weigh overlong = 0) {id : NodeId}
    {n : Node Nat} (hn : h.find? id = some n) : n.body.heldLength ≤ SizeClass.maxLargeLength := by
  have hs := hm.owned.sound_of_find? hn
  have hw := Heap.le_weigh hn overlong
  cases hbody : n.body with
  | buffer tag bytes =>
    rw [hbody] at hs
    have hsize := SizeClass.sizeFor_le_maxLargeSize hs.1
    have hfits := hs.2
    show bytes.length ≤ SizeClass.maxLargeSize - SizeClass.headerSize
    omega
  | external bytes keeper =>
    show bytes.length ≤ _
    by_contra hlong
    rw [hbody, overlong, if_pos (Nat.lt_of_not_le hlong)] at hw
    omega
  | view start length child => exact Nat.zero_le _
  | malformed tag length => exact Nat.zero_le _

/-- A node is expected where it is held, or lies below a view. -/
theorem heldLength_le_expectedAt (hm : Mirrors h lives keys) (hshort : h.weigh overlong = 0)
    {id : NodeId} {n : Node Nat} (hn : h.find? id = some n) : n.body.heldLength ≤
      expectedAt lives id.index + SizeClass.maxLargeLength * h.viewsOver id := by
  have hb := Heap.body?_of_find? hn
  cases hm.owned.counts hn with
  | immortal hrefs hbody =>
    -- the only node that lives for ever is the empty one
    obtain rfl := hm.permanent hb hbody
    obtain ⟨m, hm', -, hempty⟩ := hm.owned.empty
    rw [hn] at hm'
    cases hm'
    rw [hempty]
    exact Nat.zero_le _
  | mortal hrefs hpos hbody =>
    by_cases hviews : 0 < h.viewsOver id
    · have hle := hm.heldLength_le hshort hn
      have hone := Nat.mul_le_mul_left SizeClass.maxLargeLength hviews
      omega
    · have hheld : 0 < (lives.map (·.node)).count id := by omega
      obtain ⟨live, hlive, rfl⟩ := List.mem_map.1 (List.count_pos_iff.1 hheld)
      have hle := length_le_expectedAt hlive
      have hcontent := (hm.faithful live hlive).content
      cases hstored : n.body.stored? with
      | none =>
        rw [Body.heldLength, hstored]
        exact Nat.zero_le _
      | some data =>
        rw [Heap.content?_of_flat hb (Body.child?_of_stored? hstored), hstored] at hcontent
        cases hcontent
        rw [Body.heldLength, hstored]
        exact Nat.le_add_right_of_le hle

/-- **The heap keeps what is expected of the live nodes, and at most one whole node for each view.** -/
theorem kept_le (hm : Mirrors h lives keys) (hshort : h.weigh overlong = 0) :
    h.kept ≤ (lives.map (·.expected.length)).sum + SizeClass.maxLargeLength * h.viewCount :=
  calc h.kept
      = ∑ i ∈ Finset.range h.nodes.size, (h.nodes.get? i).elim 0 fun n => n.body.heldLength := rfl
    _ ≤ ∑ i ∈ Finset.range h.nodes.size,
          (expectedAt lives i + SizeClass.maxLargeLength * h.viewsOver ⟨i⟩) := by
        refine Finset.sum_le_sum fun i _ => ?_
        cases hn : h.nodes.get? i with
        | none => exact Nat.zero_le _
        | some n => exact hm.heldLength_le_expectedAt hshort (show h.find? ⟨i⟩ = some n from hn)
    _ = ∑ i ∈ Finset.range h.nodes.size, expectedAt lives i +
          SizeClass.maxLargeLength * ∑ i ∈ Finset.range h.nodes.size, h.viewsOver ⟨i⟩ := by
        rw [Finset.sum_add_distrib, Finset.mul_sum]
    _ ≤ _ := Nat.add_le_add (sum_expectedAt_le lives _)
        (Nat.mul_le_mul_left _ (Heap.sum_viewsOver_le h))

end Mirrors

/-! ## One operation after the other -/

/-- What is known after the operations `done`. -/
structure Within (limit : Nat) (done : List Op) (s : State) : Prop where
  settled : Settled done.length s
  short : s.AtMost overlong 0
  views : s.AtMost Body.viewWeight (done.map Op.parts).sum
  kept : s.heap.kept ≤ allowance limit done

/-- The limit does not let the operation make its node. -/
def Op.Refused (limit : Nat) (s : State) (op : Op) : Prop :=
  ∃ length ∈ op.requested?, limit < s.payload + length

theorem run_perform_of_refused {n : Nat} (hs : Sound n s) (hroom : n < RefCount.bound)
    (hrefused : op.Refused limit s) : (op.perform limit).run s = .ok false s := by
  obtain ⟨length, hrequested, hexceeds⟩ := hrefused
  cases op with
  | newBuffer id length fill | newExternal id length fill =>
    cases hrequested
    rw [Op.perform, run_bind_of_run_eq_ok (hs.run_exceeds hroom limit length),
      decide_eq_true hexceeds]
    rfl
  | _ => cases hrequested

theorem run_step_of_refused {n : Nat} (hs : Settled n s) (hroom : n < RefCount.bound)
    (hrefused : op.Refused limit s) :
    (step limit op).run s = .ok () { s with log := s.log.push (.running op) } := by
  have hperform := run_perform_of_refused (hs.withLog (s.log.push (.running op))).sound hroom hrefused
  show (op.perform limit >>= _).run { s with log := s.log.push (.running op) } = _
  rw [run_bind_of_run_eq_ok hperform]
  rfl

theorem allowance_append (limit : Nat) (done : List Op) (op : Op) : allowance limit (done ++ [op]) =
    allowance limit done + op.appended + SizeClass.maxLargeLength * op.parts := by
  simp only [allowance, List.map_append, List.sum_append, List.map_singleton, List.sum_singleton,
    Nat.mul_add]
  omega

namespace Within

/-- There is room for what an operation makes that is not refused. -/
theorem room (hw : Within limit done s) (hallowed : ¬ op.Refused limit s) :
    s.heap.kept + (op.requested?.getD 0 + op.appended) ≤ allowance limit (done ++ [op]) := by
  rw [allowance_append]
  cases hrequested : op.requested? with
  | none =>
    have hkept := hw.kept
    rw [Option.getD_none]
    omega
  | some length =>
    have hlimit : s.payload + length ≤ limit :=
      Nat.le_of_not_lt fun hlt => hallowed ⟨length, hrequested, hlt⟩
    obtain ⟨keys, hm, -⟩ := hw.settled.sound.nodes.lent
    have hkept : s.heap.kept ≤ s.payload + SizeClass.maxLargeLength * s.heap.viewCount :=
      hm.kept_le (Nat.le_zero.1 hw.short)
    have hviews := Nat.mul_le_mul_left SizeClass.maxLargeLength hw.views
    rw [Option.getD_some, allowance]
    show s.heap.kept + _ ≤ _
    unfold Heap.viewCount at hkept
    omega

theorem leaves_kept (hw : Within limit done s) (hroom : done.length + 1 < RefCount.bound) (op : Op) :
    Leaves (step limit op) s (fun _ t => t.heap.kept ≤ allowance limit (done ++ [op]))
      fun _ t => t.heap.kept ≤ allowance limit (done ++ [op]) := by
  by_cases hrefused : op.Refused limit s
  · refine leaves_of_run_eq_ok
      (run_step_of_refused hw.settled (Nat.lt_of_succ_lt hroom) hrefused) ?_
    rw [allowance_append, Nat.add_assoc]
    exact Nat.le_add_right_of_le hw.kept
  · have hgrows := charge_heldLength.takes_step limit op s (Nat.le_refl s.heap.kept)
    exact hgrows.mono (fun _ _ ht => Nat.le_trans ht (hw.room hrefused))
      fun _ _ ht => Nat.le_trans ht (hw.room hrefused)

/-- **Every operation stays within the allowance.** -/
theorem ends_step (hw : Within limit done s) (hroom : done.length + 1 < RefCount.bound) (op : Op) :
    Ends (step limit op) s fun _ t => Within limit (done ++ [op]) t := by
  have hsettled := hw.settled.ends_step hroom limit op
  have hshort := charge_overlong.takes_step limit op s hw.short
  have hviews := charge_viewWeight.takes_step limit op s hw.views
  refine (((hsettled.and hshort).and hviews).and (hw.leaves_kept hroom op)).mono ?_
    fun _ _ hbad => hbad.1.1.1
  rintro _ t ⟨⟨⟨hsettled, hshort⟩, hviews⟩, hkept⟩
  refine ⟨by rwa [List.length_append, List.length_singleton], hshort, ?_, hkept⟩
  rwa [List.map_append, List.sum_append, List.map_singleton, List.sum_singleton]

theorem ends_steps {ops : List Op} (hw : Within limit done s)
    (hroom : (done ++ ops).length < RefCount.bound) :
    Ends (ops.forM (step limit)) s fun _ t => Within limit (done ++ ops) t := by
  refine (ends_forM (fun rest t => ∃ before, before ++ rest = done ++ ops ∧ Within limit before t)
    ⟨done, rfl, hw⟩ ?_).mono ?_
  · rintro op rest t ⟨before, hbefore, ht⟩
    have hlength := congrArg List.length hbefore
    rw [List.length_append, List.length_cons] at hlength
    refine (ht.ends_step (by omega) op).mono fun _ t' ht' => ⟨before ++ [op], ?_, ht'⟩
    rw [List.append_assoc, List.singleton_append, hbefore]
  · rintro _ t ⟨before, hbefore, ht⟩
    rwa [← hbefore, List.append_nil]

end Within

theorem within_started (limit : Nat) : Within limit [] { State.initial with log := #[.started] } where
  settled := settled_started
  short := Nat.le_refl 0
  views := Nat.le_refl 0
  kept := Nat.zero_le _

/-- **A trial keeps at most what its limit allows, what it appended, and a whole node for each part that it
made.** Without appends and parts, that is the limit. -/
theorem kept_le_allowance (limit : Nat) (ops : List Op) (hshort : ops.length < RefCount.bound) :
    (∀ done, done <+: ops → ∃ s, (do log .started; done.forM (step limit)).run .initial = .ok () s ∧
      s.heap.kept ≤ allowance limit done ∧
      ((∀ op ∈ done, op.appended = 0 ∧ op.parts = 0) → s.heap.kept ≤ limit)) ∧
    ∃ s, (play limit ops).run .initial = .ok () s ∧ s.heap.kept ≤ allowance limit ops := by
  have hsteps : ∀ done : List Op, done.length < RefCount.bound →
      Ends (do log .started; done.forM (step limit)) State.initial fun _ t => Within limit done t :=
    fun done hlength => (within_started limit).ends_steps hlength
  constructor
  · intro done hdone
    obtain ⟨_, s, hrun, hs⟩ := (hsteps done (Nat.lt_of_le_of_lt hdone.length_le hshort)).run_eq_ok
    refine ⟨s, hrun, hs.kept, fun hnone => ?_⟩
    have happended : (done.map Op.appended).sum = 0 := by
      simp only [List.sum_eq_zero_iff, List.forall_mem_map]
      exact fun op hop => (hnone op hop).1
    have hparts : (done.map Op.parts).sum = 0 := by
      simp only [List.sum_eq_zero_iff, List.forall_mem_map]
      exact fun op hop => (hnone op hop).2
    have hkept := hs.kept
    rwa [allowance, happended, hparts] at hkept
  · have hplay : Ends (play limit ops) State.initial fun _ t => t.heap.kept ≤ allowance limit ops := by
      unfold play
      rw [ends_bind_log]
      refine ((within_started limit).ends_steps hshort).bind fun _ t ht => ?_
      exact ((ht.settled.ends_tearDown hshort).and
        (preserves_tearDown t ht.kept)).mono (fun _ _ hgood => hgood.2) fun _ _ hbad => hbad.1
    obtain ⟨_, s, hrun, hs⟩ := hplay.run_eq_ok
    exact ⟨s, hrun, hs⟩

theorem kept_le_allowance_replacements : replacements.length < RefCount.bound ∧
    (∀ done, done <+: replacements → ∃ s,
      (do log .started; done.forM (step 100)).run .initial = .ok () s ∧
      s.heap.kept ≤ allowance 100 done ∧
      ((∀ op ∈ done, op.appended = 0 ∧ op.parts = 0) → s.heap.kept ≤ 100)) ∧
    ∃ s, (play 100 replacements).run .initial = .ok () s ∧ s.heap.kept ≤ allowance 100 replacements :=
  ⟨by decide, kept_le_allowance 100 replacements (by decide)⟩

/-- Whether operations that end well leave more than the limit. -/
def keepsMore (limit : Nat) (ops : List Op) : Bool :=
  match (do log .started; ops.forM (step limit) : TrialM Unit).run .initial with
  | .ok _ s => limit < s.heap.kept
  | .error _ _ => false

theorem exists_of_keepsMore {ops : List Op} (h : keepsMore limit ops = true) :
    ∃ s, (do log .started; ops.forM (step limit)).run .initial = .ok () s ∧ limit < s.heap.kept := by
  unfold keepsMore at h
  cases hrun : (do log .started; ops.forM (step limit) : TrialM Unit).run .initial with
  | ok _ s =>
    rw [hrun] at h
    exact ⟨s, rfl, of_decide_eq_true h⟩
  | error _ _ =>
    rw [hrun] at h
    cases h

/-- An append goes beyond the limit, and so does a new node when a part of one byte keeps another alive. -/
theorem limit_is_exceeded :
    (∃ s, (do log .started; [Op.newBuffer 0 4 1, .append 0 5 7].forM (step 4)).run .initial = .ok () s ∧
      4 < s.heap.kept) ∧
    ∃ s, (do
      log .started
      [Op.newBuffer 0 4 1, .subRange 1 0 0 0, .dropNode 0, .newBuffer 2 3 1].forM (step 4)).run .initial =
        .ok () s ∧ 4 < s.heap.kept :=
  ⟨exists_of_keepsMore (by decide +kernel), exists_of_keepsMore (by decide +kernel)⟩

end RopeStore.Trial
