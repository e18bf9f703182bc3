import Mathlib.Data.List.Basic
import RopeStore.Random

/-!
# What is drawn

* `Draws m P` : whatever the generator, what `m` draws has the property `P`; `Draws.bind` : one draw
  after another;
* `draws_below`, `draws_index` : a number below a bound, and a position in a list that is not empty;
* `Guarded` : draws that stop where something is asked for that is not there; `position`, `there` : two
  such steps;
* `Keeps c m P` : the guarded draw `c` never stops, it is the draw `m`, and what is drawn has the
  property `P`. `Keeps.bind` and the lemmas on the steps build it up together with the draws.
-/

namespace RopeStore.Random
variable {α β : Type} {m : Draw α} {f : α → Draw β} {P : α → Prop} {Q : β → Prop} {n : Nat}

/-! ## Properties of what is drawn -/

/-- Whatever the generator, what is drawn has the property `P`. -/
def Draws (m : Draw α) (P : α → Prop) : Prop := ∀ g, P (m.run g).1

theorem draws_pure {a : α} (ha : P a) : Draws (pure a) P := fun _ => ha

theorem draws_true (m : Draw α) : Draws m fun _ => True := fun _ => trivial

theorem Draws.bind (hm : Draws m P) (hf : ∀ a, P a → Draws (f a) Q) : Draws (m >>= f) Q :=
  fun g => hf _ (hm g) _

theorem Draws.mono {P' : α → Prop} (hm : Draws m P) (himp : ∀ a, P a → P' a) : Draws m P' :=
  fun g => himp _ (hm g)

theorem draws_nextWord (size : WordSize) : Draws (nextWord size) (· < size.bound) := by
  intro g
  cases size with
  | half => exact UInt32.toNat_lt _
  | full => exact UInt64.toNat_lt _

/-- The upper half of a product of a word and `n` is below `n`, also where no word is drawn again any
more. -/
theorem draws_belowWithin (size : WordSize) (zone : Nat) (hn : 0 < n) (redraws : Nat) :
    Draws (belowWithin size zone n redraws) (· < n) := by
  have hword : ∀ w, w < size.bound → w * n / size.bound < n := fun w hw =>
    Nat.div_lt_of_lt_mul (Nat.mul_lt_mul_of_pos_right hw hn)
  induction redraws with
  | zero => exact (draws_nextWord size).bind fun w hw => draws_pure (hword w hw)
  | succ redraws ih =>
    refine (draws_nextWord size).bind fun w hw => ?_
    dsimp only
    split
    · exact draws_pure (hword w hw)
    · exact ih

theorem draws_below (size : WordSize) (zone : Nat) (hn : 0 < n) :
    Draws (below size zone n) (· < n) :=
  draws_belowWithin size zone hn redrawLimit

theorem draws_index (hn : 0 < n) : Draws (index n) fun o => ∃ i < n, o = some i := by
  unfold index
  rw [if_neg (by omega)]
  split
  · exact draws_pure ⟨0, hn, rfl⟩
  · exact (draws_below .full _ hn).bind fun i hi => draws_pure ⟨i, hi, rfl⟩

/-! ## Draws that may stop -/

/-- A draw that stops where something is asked for that is not there. -/
abbrev Guarded := OptionT Draw

/-- A position in a list of length `n`, which must not be empty. -/
def position (n : Nat) : Guarded Nat := OptionT.mk (index n)

def there (o : Option α) : Guarded α := OptionT.mk (pure o)

/-- The guarded draw `c` never stops. It is the draw `m`, and what is drawn has the property `P`. -/
def Keeps (c : Guarded α) (m : Draw α) (P : α → Prop) : Prop :=
  ∀ g, c.run.run g = (some (m.run g).1, (m.run g).2) ∧ P (m.run g).1

theorem run_bind_of_run_eq_some {c : Guarded α} {d : α → Guarded β} {g g' : Generator} {a : α}
    (h : c.run.run g = (some a, g')) : (c >>= d).run.run g = (d a).run.run g' := by
  rw [OptionT.run_bind, Option.elimM, StateT.run_bind, h]
  rfl

theorem keeps_pure {a : α} (ha : P a) : Keeps (pure a) (pure a) P := fun _ => ⟨rfl, ha⟩

theorem keeps_lift (hm : Draws m P) : Keeps (OptionT.lift m) m P := fun g => ⟨rfl, hm g⟩

theorem Keeps.bind {c : Guarded α} {d : α → Guarded β} (hc : Keeps c m P)
    (hd : ∀ a, P a → Keeps (d a) (f a) Q) : Keeps (c >>= d) (m >>= f) Q := by
  intro g
  obtain ⟨hrun, hP⟩ := hc g
  obtain ⟨hrun', hQ⟩ := hd _ hP (m.run g).2
  exact ⟨(run_bind_of_run_eq_some hrun).trans hrun', hQ⟩

theorem keeps_there {o : Option α} {a : α} (ho : o = some a) {d : α → Guarded β} {m : Draw β}
    (hd : Keeps (d a) m Q) : Keeps (there o >>= d) m Q := by
  subst ho
  exact hd

theorem keeps_guard {p : Prop} [Decidable p] (hp : p) {c : Guarded β} {m : Draw β}
    (hc : Keeps c m Q) : Keeps (guard p >>= fun _ => c) m Q := by
  have hguard : (guard p : Guarded Unit) = pure () := if_pos hp
  rw [hguard, pure_bind]
  exact hc

theorem keeps_position (hn : 0 < n) {d : Nat → Guarded β} {f : Option Nat → Draw β}
    (hd : ∀ i < n, Keeps (d i) (f (some i)) Q) : Keeps (position n >>= d) (index n >>= f) Q := by
  intro g
  obtain ⟨i, hi, hsome⟩ := draws_index hn g
  have hrun : (position n).run.run g = (some i, ((index n).run g).2) := Prod.ext hsome rfl
  obtain ⟨hrun', hQ⟩ := hd i hi ((index n).run g).2
  have hm : (index n >>= f).run g = (f (some i)).run ((index n).run g).2 := by
    rw [← hsome]
    rfl
  rw [hm]
  exact ⟨(run_bind_of_run_eq_some hrun).trans hrun', hQ⟩

end RopeStore.Random
