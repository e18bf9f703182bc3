import Mathlib.Data.List.Basic
import RopeStore.Fault

/-!
# What a step leaves

* `Leaves m s good bad` : the step `m`, begun in the state `s`, ends well with an answer and a state
  for which `good` holds, or with a fault and a state for which `bad` holds;
* `Ends m s good` : it ends well, and `good` holds;
* `leaves_*` : the rules by which a step is taken apart, one for each way of making a step;
* `run_bind_of_run_eq_ok` : a first step whose end is known is taken off;
* `Preserves P m`, `Takes P Q m` : the step `m` keeps `P`, and leads from `P` to `Q`, also where it faults;
  one rule for each way of making a step;
* `ends_forM` : a loop with an invariant over what is left of the list; `run_forM`, `run_filterM` :
  loops that only look.
-/

namespace RopeStore
variable {ε σ α β : Type}

/-- How `m` ends when it is begun in `s`. -/
def Leaves (m : EStateM ε σ α) (s : σ) (good : α → σ → Prop) (bad : ε → σ → Prop) : Prop :=
  match m.run s with
  | .ok a t => good a t
  | .error e t => bad e t

/-- Begun in `s`, the step `m` does not fault. -/
def Ends (m : EStateM ε σ α) (s : σ) (good : α → σ → Prop) : Prop :=
  Leaves m s good fun _ _ => False

/-! ## Steps whose end is known -/

theorem run_bind_of_run_eq_ok {m : EStateM ε σ β} {f : β → EStateM ε σ α} {s t : σ} {b : β}
    (h : m.run s = .ok b t) : (m >>= f).run s = (f b).run t := by
  rw [EStateM.run_bind, h]

theorem run_bind_of_run_eq_error {m : EStateM ε σ β} {f : β → EStateM ε σ α} {s t : σ} {e : ε}
    (h : m.run s = .error e t) : (m >>= f).run s = .error e t := by
  rw [EStateM.run_bind, h]

/-- A sequence that ends well is opened into its two steps. -/
theorem run_bind_eq_ok_iff {m : EStateM ε σ β} {f : β → EStateM ε σ α} {s t : σ} {a : α} :
    (m >>= f).run s = .ok a t ↔ ∃ b u, m.run s = .ok b u ∧ (f b).run u = .ok a t := by
  rw [EStateM.run_bind]
  cases m.run s with
  | ok b u => simp
  | error e u => simp

theorem except_bind_eq_ok_iff {outcome : Except ε β} {f : β → Except ε α} {a : α} :
    outcome >>= f = .ok a ↔ ∃ b, outcome = .ok b ∧ f b = .ok a := by
  cases outcome with
  | ok b => exact ⟨fun h => ⟨b, rfl, h⟩, fun ⟨_, hb, h⟩ => by cases hb; exact h⟩
  | error e => exact ⟨nofun, fun ⟨_, hb, _⟩ => nomatch hb⟩

theorem run_ofExcept_of_eq_ok {outcome : Except ε α} {a : α} {s : σ} (h : outcome = .ok a) :
    (ofExcept outcome : EStateM ε σ α).run s = .ok a s := by
  rw [h]
  rfl

theorem run_ofExcept_of_eq_error {outcome : Except ε α} {e : ε} {s : σ} (h : outcome = .error e) :
    (ofExcept outcome : EStateM ε σ α).run s = .error e s := by
  rw [h]
  rfl

theorem run_tryCatch (m : EStateM ε σ α) (f : ε → EStateM ε σ α) (s : σ) :
    (tryCatch m f).run s = match m.run s with
      | .ok a t => .ok a t
      | .error e t => (f e).run t := by
  show EStateM.tryCatch m f s = match m s with | .ok a t => .ok a t | .error e t => f e t
  unfold EStateM.tryCatch
  cases m s <;> rfl

/-! ## Rules -/

section Rules
variable {s : σ} {good : α → σ → Prop} {bad : ε → σ → Prop}

theorem leaves_of_run_eq_ok {m : EStateM ε σ α} {a : α} {t : σ} (h : m.run s = .ok a t)
    (ha : good a t) : Leaves m s good bad := by
  rw [Leaves, h]
  exact ha

theorem leaves_of_run_eq_error {m : EStateM ε σ α} {e : ε} {t : σ} (h : m.run s = .error e t)
    (he : bad e t) : Leaves m s good bad := by
  rw [Leaves, h]
  exact he

theorem Ends.run_eq_ok {m : EStateM ε σ α} (h : Ends m s good) :
    ∃ a t, m.run s = .ok a t ∧ good a t := by
  unfold Ends Leaves at h
  cases hrun : m.run s with
  | ok a t =>
    rw [hrun] at h
    exact ⟨a, t, rfl, h⟩
  | error e t =>
    rw [hrun] at h
    exact h.elim

theorem Leaves.good_of_run_eq_ok {m : EStateM ε σ α} (h : Leaves m s good bad) {a : α} {t : σ}
    (hrun : m.run s = .ok a t) : good a t := by
  rwa [Leaves, hrun] at h

theorem Leaves.bad_of_run_eq_error {m : EStateM ε σ α} (h : Leaves m s good bad) {e : ε} {t : σ}
    (hrun : m.run s = .error e t) : bad e t := by
  rwa [Leaves, hrun] at h

theorem Leaves.mono {m : EStateM ε σ α} {good' : α → σ → Prop} {bad' : ε → σ → Prop}
    (h : Leaves m s good bad) (hgood : ∀ a t, good a t → good' a t)
    (hbad : ∀ e t, bad e t → bad' e t) : Leaves m s good' bad' := by
  unfold Leaves at h ⊢
  cases hrun : m.run s with
  | ok a t =>
    rw [hrun] at h
    exact hgood a t h
  | error e t =>
    rw [hrun] at h
    exact hbad e t h

theorem Ends.mono {m : EStateM ε σ α} {good' : α → σ → Prop} (h : Ends m s good)
    (hgood : ∀ a t, good a t → good' a t) : Ends m s good' :=
  Leaves.mono h hgood fun _ _ hf => hf

theorem Leaves.and {m : EStateM ε σ α} {good' : α → σ → Prop} {bad' : ε → σ → Prop}
    (h : Leaves m s good bad) (h' : Leaves m s good' bad') :
    Leaves m s (fun a t => good a t ∧ good' a t) fun e t => bad e t ∧ bad' e t := by
  unfold Leaves at h h' ⊢
  cases hrun : m.run s with
  | ok a t =>
    rw [hrun] at h h'
    exact ⟨h, h'⟩
  | error e t =>
    rw [hrun] at h h'
    exact ⟨h, h'⟩

/-- A step that does not fault leaves what it leaves, whatever is asked of its faults. -/
theorem Ends.leaves {m : EStateM ε σ α} (h : Ends m s good) : Leaves m s good bad :=
  Leaves.mono h (fun _ _ hg => hg) fun _ _ hf => hf.elim

/-- What else a step leaves that does not fault. -/
theorem Ends.also {m : EStateM ε σ α} {good' : α → σ → Prop} {bad' : ε → σ → Prop}
    (h : Ends m s good) (h' : Leaves m s good' bad') : Ends m s fun a t => good a t ∧ good' a t :=
  (Leaves.and h h').mono (fun _ _ hg => hg) fun _ _ hf => hf.1

@[simp] theorem leaves_pure (a : α) : Leaves (pure a : EStateM ε σ α) s good bad ↔ good a s :=
  Iff.rfl

@[simp] theorem leaves_throw (e : ε) :
    Leaves (throw e : EStateM ε σ α) s good bad ↔ bad e s :=
  Iff.rfl

theorem leaves_bind {m : EStateM ε σ β} {f : β → EStateM ε σ α} :
    Leaves (m >>= f) s good bad ↔ Leaves m s (fun b t => Leaves (f b) t good bad) bad := by
  unfold Leaves
  rw [EStateM.run_bind]
  cases m.run s <;> rfl

theorem leaves_bind_of_run_eq_ok {m : EStateM ε σ β} {f : β → EStateM ε σ α} {b : β} {t : σ}
    (h : m.run s = .ok b t) : Leaves (m >>= f) s good bad ↔ Leaves (f b) t good bad := by
  rw [Leaves, Leaves, run_bind_of_run_eq_ok h]

theorem leaves_tryCatch {m : EStateM ε σ α} {f : ε → EStateM ε σ α} :
    Leaves (tryCatch m f) s good bad ↔ Leaves m s good fun e t => Leaves (f e) t good bad := by
  unfold Leaves
  rw [run_tryCatch]
  cases m.run s <;> rfl

/-- The first step of two ends well, and the second goes on from there. -/
theorem Leaves.bind {m : EStateM ε σ β} {f : β → EStateM ε σ α} {mid : β → σ → Prop}
    (h : Leaves m s mid bad) (hf : ∀ b t, mid b t → Leaves (f b) t good bad) :
    Leaves (m >>= f) s good bad :=
  leaves_bind.2 (h.mono hf fun _ _ he => he)

theorem Ends.bind {m : EStateM ε σ β} {f : β → EStateM ε σ α} {mid : β → σ → Prop}
    (h : Ends m s mid) (hf : ∀ b t, mid b t → Ends (f b) t good) : Ends (m >>= f) s good :=
  Leaves.bind h hf

@[simp] theorem ends_pure (a : α) : Ends (pure a : EStateM ε σ α) s good ↔ good a s :=
  Iff.rfl

theorem ends_bind_of_run_eq_ok {m : EStateM ε σ β} {f : β → EStateM ε σ α} {b : β} {t : σ}
    (h : m.run s = .ok b t) : Ends (m >>= f) s good ↔ Ends (f b) t good :=
  leaves_bind_of_run_eq_ok h

theorem ends_of_run_eq_ok {m : EStateM ε σ α} {a : α} {t : σ} (h : m.run s = .ok a t)
    (ha : good a t) : Ends m s good :=
  leaves_of_run_eq_ok h ha

end Rules

section State
variable {s : σ} {bad : ε → σ → Prop}

@[simp] theorem leaves_get {good : σ → σ → Prop} :
    Leaves (get : EStateM ε σ σ) s good bad ↔ good s s :=
  Iff.rfl

@[simp] theorem leaves_modify {good : PUnit → σ → Prop} (f : σ → σ) :
    Leaves (modify f : EStateM ε σ PUnit) s good bad ↔ good ⟨⟩ (f s) :=
  Iff.rfl

theorem ends_bind_get {f : σ → EStateM ε σ α} {good : α → σ → Prop} :
    Ends (get >>= f) s good ↔ Ends (f s) s good :=
  Iff.rfl

theorem ends_bind_modify {f : PUnit → EStateM ε σ α} {good : α → σ → Prop} (g : σ → σ) :
    Ends (modify g >>= f) s good ↔ Ends (f ⟨⟩) (g s) good :=
  Iff.rfl

end State

/-! ## What is kept -/

/-- The step `m` keeps `P`, wherever it is begun, and also where it faults. -/
def Preserves (P : σ → Prop) (m : EStateM ε σ α) : Prop :=
  ∀ s, P s → Leaves m s (fun _ t => P t) fun _ t => P t

section Preserves
variable {P : σ → Prop}

theorem preserves_pure (a : α) : Preserves P (pure a : EStateM ε σ α) := fun _ hs => hs

theorem preserves_throw (e : ε) : Preserves P (throw e : EStateM ε σ α) := fun _ hs => hs

theorem preserves_ofExcept (outcome : Except ε α) :
    Preserves P (ofExcept outcome : EStateM ε σ α) := by
  cases outcome with
  | ok a => exact preserves_pure a
  | error e => exact preserves_throw e

theorem preserves_get : Preserves P (get : EStateM ε σ σ) := fun _ hs => hs

theorem preserves_modify {f : σ → σ} (hf : ∀ s, P s → P (f s)) :
    Preserves P (modify f : EStateM ε σ PUnit) := hf

theorem Preserves.bind {m : EStateM ε σ β} {f : β → EStateM ε σ α} (hm : Preserves P m)
    (hf : ∀ b, Preserves P (f b)) : Preserves P (m >>= f) := fun s hs =>
  (hm s hs).bind fun b t ht => hf b t ht

theorem preserves_forM {f : β → EStateM ε σ PUnit} (hf : ∀ b, Preserves P (f b)) (l : List β) :
    Preserves P (l.forM f) := by
  induction l with
  | nil => exact preserves_pure PUnit.unit
  | cons b rest ih => exact (hf b).bind fun _ => ih

theorem preserves_filterAuxM {p : β → EStateM ε σ Bool} (hp : ∀ b, Preserves P (p b))
    (l acc : List β) : Preserves P (List.filterAuxM p l acc) := by
  induction l generalizing acc with
  | nil => exact preserves_pure acc
  | cons b rest ih => exact (hp b).bind fun taken => ih _

theorem preserves_filterM {p : β → EStateM ε σ Bool} (hp : ∀ b, Preserves P (p b)) (l : List β) :
    Preserves P (l.filterM p) :=
  (preserves_filterAuxM hp l []).bind fun _ => preserves_pure _

theorem Preserves.tryCatch {m : EStateM ε σ α} {f : ε → EStateM ε σ α} (hm : Preserves P m)
    (hf : ∀ e, Preserves P (f e)) : Preserves P (tryCatch m f) := fun s hs =>
  leaves_tryCatch.2 ((hm s hs).mono (fun _ _ ht => ht) fun e t ht => hf e t ht)

end Preserves

/-- The step `m` leads from `P` to `Q`, also where it faults. -/
def Takes (P Q : σ → Prop) (m : EStateM ε σ α) : Prop :=
  ∀ s, P s → Leaves m s (fun _ t => Q t) fun _ t => Q t

section Takes
variable {P Q : σ → Prop}

theorem Preserves.takes {m : EStateM ε σ α} (hm : Preserves P m) (hpq : ∀ s, P s → Q s) :
    Takes P Q m := fun s hs => (hm s hs).mono (fun _ t ht => hpq t ht) fun _ t ht => hpq t ht

/-- The change is in the second of two steps. -/
theorem Preserves.takes_bind {m : EStateM ε σ β} {f : β → EStateM ε σ α} (hm : Preserves P m)
    (hpq : ∀ s, P s → Q s) (hf : ∀ b, Takes P Q (f b)) : Takes P Q (m >>= f) := fun s hs =>
  leaves_bind.2 ((hm s hs).mono (fun b t ht => hf b t ht) fun _ t ht => hpq t ht)

/-- The change is in the first of two steps. -/
theorem Takes.bind {m : EStateM ε σ β} {f : β → EStateM ε σ α} (hm : Takes P Q m)
    (hf : ∀ b, Preserves Q (f b)) : Takes P Q (m >>= f) := fun s hs =>
  (hm s hs).bind fun b t ht => hf b t ht

end Takes

/-! ## Loops -/

/-- What every round keeps, the whole loop keeps. The invariant is about the rounds that are left. -/
theorem ends_forM {f : β → EStateM ε σ PUnit} (inv : List β → σ → Prop) {l : List β} {s : σ}
    (hs : inv l s)
    (hround : ∀ b rest t, inv (b :: rest) t → Ends (f b) t fun _ t' => inv rest t') :
    Ends (l.forM f) s fun _ t => inv [] t := by
  induction l generalizing s with
  | nil => exact hs
  | cons b rest ih => exact (hround b rest s hs).bind fun _ t ht => ih ht

theorem run_forM {f : β → EStateM ε σ PUnit} {l : List β} {s : σ}
    (hf : ∀ b ∈ l, (f b).run s = .ok ⟨⟩ s) : (l.forM f).run s = .ok ⟨⟩ s := by
  induction l with
  | nil => rfl
  | cons b rest ih =>
    show (f b >>= fun _ => rest.forM f).run s = _
    rw [run_bind_of_run_eq_ok (hf b List.mem_cons_self)]
    exact ih fun b' hb' => hf b' (List.mem_cons_of_mem _ hb')

theorem run_filterAuxM {p : β → EStateM ε σ Bool} {f : β → Bool} {l : List β} {s : σ}
    (hp : ∀ b ∈ l, (p b).run s = .ok (f b) s) (acc : List β) :
    (List.filterAuxM p l acc).run s = .ok ((l.filter f).reverse ++ acc) s := by
  induction l generalizing acc with
  | nil => rfl
  | cons b rest ih =>
    have hrest := ih (fun b' hb' => hp b' (List.mem_cons_of_mem _ hb'))
    rw [List.filterAuxM, run_bind_of_run_eq_ok (hp b List.mem_cons_self), hrest]
    by_cases hb : f b = true
    · rw [List.filter_cons_of_pos hb, hb, List.reverse_cons, List.append_assoc]
      rfl
    · rw [List.filter_cons_of_neg hb, Bool.eq_false_iff.2 hb]
      rfl

theorem run_filterM {p : β → EStateM ε σ Bool} {f : β → Bool} {l : List β} {s : σ}
    (hp : ∀ b ∈ l, (p b).run s = .ok (f b) s) : (l.filterM p).run s = .ok (l.filter f) s := by
  rw [List.filterM, run_bind_of_run_eq_ok (run_filterAuxM hp [])]
  show EStateM.Result.ok _ s = _
  rw [List.append_nil, List.reverse_reverse]

end RopeStore
