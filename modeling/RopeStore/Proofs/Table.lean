import Mathlib.Data.List.Basic
import RopeStore.Table

/-!
# Sorted tables

* `Table.Sorted` : the keys ascend, so every key is there at most once; `insert` and `erase` keep
  that;
* `Table.Sorted.perm_erase`, `Table.Sorted.perm_insert` : in a sorted table, an entry that is found is
  the only one with its key, and what is put at a key takes the place of that one; the same for the
  values without their keys;
* `Table.erase_of_get?_eq_none` : what is not there cannot be taken away.
-/

namespace RopeStore.Table
variable {κ α : Type}

def Sorted [LT κ] (t : Table κ α) : Prop := t.entries.Pairwise fun a b => a.1 < b.1

theorem sorted_empty [LT κ] : (empty : Table κ α).Sorted := List.Pairwise.nil

/-- A key that comes before the first one comes before all. -/
theorem forall_lt_of_lt [LT κ] [LE κ] [Std.LawfulOrderLT κ] [Std.IsPreorder κ] {key : κ}
    {entry : κ × α} {rest : List (κ × α)} (hlt : key < entry.1)
    (hfirst : ∀ b ∈ rest, entry.1 < b.1) : ∀ b ∈ entry :: rest, key < b.1 := by
  intro b hb
  rcases List.mem_cons.1 hb with rfl | hb
  · exact hlt
  · exact Std.lt_trans hlt (hfirst b hb)

variable [DecidableEq κ] {t : Table κ α} {key : κ} {value : α}

theorem mem_of_get?_eq_some (hx : t.get? key = some value) : (key, value) ∈ t.entries := by
  obtain ⟨⟨key', value'⟩, hfind, rfl⟩ := Option.map_eq_some_iff.1 hx
  have hkey := List.find?_some hfind
  rw [decide_eq_true_eq] at hkey
  subst hkey
  exact List.mem_of_find?_eq_some hfind

theorem erase_of_get?_eq_none (hx : t.get? key = none) : t.erase key = t := by
  rw [get?, Option.map_eq_none_iff, List.find?_eq_none] at hx
  unfold erase
  congr 1
  apply List.filter_eq_self.2
  intro entry hentry
  simpa using hx entry hentry

theorem length_values_erase_le (t : Table κ α) (key : κ) :
    (t.erase key).values.length ≤ t.values.length := by
  rw [values, values, List.length_map, List.length_map]
  exact List.length_filter_le _ _

variable [LT κ]

theorem Sorted.erase (hs : t.Sorted) (key : κ) : (t.erase key).Sorted := List.Pairwise.filter _ hs

variable [LE κ] [Std.LawfulOrderLT κ]

theorem filter_ne_of_forall_lt {entries : List (κ × α)} (hlt : ∀ b ∈ entries, key < b.1) :
    entries.filter (fun entry => entry.1 ≠ key) = entries := by
  refine List.filter_eq_self.2 fun entry hentry => decide_eq_true ?_
  rintro rfl
  exact Std.lt_irrefl (hlt entry hentry)

/-- What is found is the only entry with its key. -/
theorem Sorted.perm_erase (hs : t.Sorted) (hx : t.get? key = some value) :
    t.entries.Perm ((key, value) :: (t.erase key).entries) := by
  obtain ⟨entries⟩ := t
  have hmem := mem_of_get?_eq_some hx
  clear hx
  show entries.Perm ((key, value) :: entries.filter fun entry => entry.1 ≠ key)
  induction entries with
  | nil => exact absurd hmem List.not_mem_nil
  | cons entry rest ih =>
    obtain ⟨hfirst, hrest⟩ := List.pairwise_cons.1 (show (entry :: rest).Pairwise _ from hs)
    by_cases hkey : entry.1 = key
    · have hentry : entry = (key, value) := by
        refine (List.mem_cons.1 hmem).resolve_right (fun hin => ?_) |>.symm
        have hlt := hfirst _ hin
        rw [hkey] at hlt
        exact Std.lt_irrefl hlt
      subst hentry
      rw [List.filter_cons_of_neg (by simp), filter_ne_of_forall_lt hfirst]
    · have hin : (key, value) ∈ rest := by
        apply (List.mem_cons.1 hmem).resolve_left
        rintro rfl
        exact hkey rfl
      rw [List.filter_cons_of_pos (by simpa using hkey)]
      exact ((ih hrest hin).cons entry).trans (.swap _ _ _)

theorem Sorted.values_perm_of_get? (hs : t.Sorted) (hx : t.get? key = some value) :
    t.values.Perm (value :: (t.erase key).values) :=
  (hs.perm_erase hx).map Prod.snd

variable [Std.IsLinearOrder κ] [DecidableLT κ]

theorem perm_insertEntry {entries : List (κ × α)} (hs : entries.Pairwise fun a b => a.1 < b.1) :
    (insertEntry key value entries).Perm
      ((key, value) :: entries.filter fun entry => entry.1 ≠ key) := by
  induction entries with
  | nil => exact .refl _
  | cons entry rest ih =>
    obtain ⟨hfirst, hrest⟩ := List.pairwise_cons.1 hs
    unfold insertEntry
    by_cases hlt : key < entry.1
    · rw [if_pos hlt, filter_ne_of_forall_lt (forall_lt_of_lt hlt hfirst)]
    · rw [if_neg hlt]
      by_cases heq : key = entry.1
      · subst heq
        rw [if_pos rfl, List.filter_cons_of_neg (by simp), filter_ne_of_forall_lt hfirst]
      · rw [if_neg heq, List.filter_cons_of_pos (by simpa using Ne.symm heq)]
        exact ((ih hrest).cons entry).trans (.swap _ _ _)

/-- What is put at a key takes the place of what was there. -/
theorem Sorted.perm_insert (hs : t.Sorted) (key : κ) (value : α) :
    (t.insert key value).entries.Perm ((key, value) :: (t.erase key).entries) :=
  perm_insertEntry hs

theorem Sorted.insert (hs : t.Sorted) (key : κ) (value : α) : (t.insert key value).Sorted := by
  obtain ⟨entries⟩ := t
  have hs : entries.Pairwise fun a b => a.1 < b.1 := hs
  show (insertEntry key value entries).Pairwise _
  induction entries with
  | nil => exact List.pairwise_singleton _ _
  | cons entry rest ih =>
    obtain ⟨hfirst, hrest⟩ := List.pairwise_cons.1 hs
    unfold insertEntry
    by_cases hlt : key < entry.1
    · rw [if_pos hlt]
      exact List.pairwise_cons.2 ⟨forall_lt_of_lt hlt hfirst, hs⟩
    · rw [if_neg hlt]
      by_cases heq : key = entry.1
      · subst heq
        rw [if_pos rfl]
        exact List.pairwise_cons.2 ⟨hfirst, hrest⟩
      · rw [if_neg heq]
        refine List.pairwise_cons.2 ⟨fun b hb => ?_, ih hrest hrest⟩
        rcases List.mem_cons.1 ((perm_insertEntry hrest).mem_iff.1 hb) with rfl | hb
        · exact Std.lt_of_le_of_ne (Std.not_lt.1 hlt) (Ne.symm heq)
        · exact hfirst b (List.mem_filter.1 hb).1

theorem Sorted.values_insert_perm (hs : t.Sorted) (key : κ) (value : α) :
    (t.insert key value).values.Perm (value :: (t.erase key).values) :=
  (hs.perm_insert key value).map Prod.snd

theorem Sorted.values_insert_perm_of_get?_eq_none (hs : t.Sorted) (hx : t.get? key = none) (value : α) :
    (t.insert key value).values.Perm (value :: t.values) := by
  have hperm := hs.values_insert_perm key value
  rwa [erase_of_get?_eq_none hx] at hperm

/-- The value that loses its place is the only one that is not there any more. -/
theorem Sorted.values_insert_perm_of_get? {old : α} (hs : t.Sorted) (hx : t.get? key = some old)
    (value : α) : (old :: (t.insert key value).values).Perm (value :: t.values) :=
  ((hs.values_insert_perm key value).cons old).trans
    ((List.Perm.swap _ _ _).trans ((hs.values_perm_of_get? hx).symm.cons value))

theorem Sorted.length_values_insert_le (hs : t.Sorted) (key : κ) (value : α) :
    (t.insert key value).values.length ≤ t.values.length + 1 := by
  rw [(hs.values_insert_perm key value).length_eq, List.length_cons]
  exact Nat.succ_le_succ (length_values_erase_le t key)

end RopeStore.Table
