import Mathlib.Data.List.Basic
import Mathlib.Data.List.Forall2

/-!
# Lists in step

Two lists are in step if they have one length and what is at one place in both is related. Changes at
one place of both, and of one of them, keep them in step.
-/

namespace RopeStore
variable {α β : Type} {R : α → β → Prop} {as : List α} {bs : List β} {a : α} {b : β} {i : Nat}

theorem exists_of_forall₂ (h : List.Forall₂ R as bs) (hi : as[i]? = some a) :
    ∃ b, bs[i]? = some b ∧ R a b := by
  induction h generalizing i with
  | nil => cases hi
  | cons hr _ ih =>
    cases i with
    | zero =>
      cases hi
      exact ⟨_, rfl, hr⟩
    | succ i => exact ih hi

theorem getElem?_eq_none_of_forall₂ (h : List.Forall₂ R as bs) (hi : as[i]? = none) :
    bs[i]? = none := by
  rw [List.getElem?_eq_none_iff] at hi ⊢
  rwa [← h.length_eq]

theorem forall₂_set (h : List.Forall₂ R as bs) (hr : R a b) :
    List.Forall₂ R (as.set i a) (bs.set i b) := by
  induction h generalizing i with
  | nil => exact .nil
  | cons hr' hrest ih =>
    cases i with
    | zero => exact .cons hr hrest
    | succ i => exact .cons hr' ih

theorem forall₂_modify_both (h : List.Forall₂ R as bs) {f : α → α} {g : β → β}
    (hfg : ∀ a b, as[i]? = some a → bs[i]? = some b → R a b → R (f a) (g b)) :
    List.Forall₂ R (as.modify i f) (bs.modify i g) := by
  induction h generalizing i with
  | nil => cases i <;> exact .nil
  | cons hr hrest ih =>
    cases i with
    | zero => exact .cons (hfg _ _ rfl rfl hr) hrest
    | succ i => exact .cons hr (ih hfg)

theorem forall₂_modify (h : List.Forall₂ R as bs) {f : α → α}
    (hf : ∀ a b, bs[i]? = some b → R a b → R (f a) b) : List.Forall₂ R (as.modify i f) bs := by
  have hboth := forall₂_modify_both h (f := f) (g := id) fun a b _ hb hr => hf a b hb hr
  rwa [List.modify_id] at hboth

theorem forall₂_eraseIdx (h : List.Forall₂ R as bs) (i : Nat) :
    List.Forall₂ R (as.eraseIdx i) (bs.eraseIdx i) := by
  induction h generalizing i with
  | nil => exact .nil
  | cons hr hrest ih =>
    cases i with
    | zero => exact hrest
    | succ i => exact .cons hr (ih i)

end RopeStore
