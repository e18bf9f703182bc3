import Mathlib.Data.List.Basic
import RopeStore.Value.Order
import RopeStore.Proofs.Client.Values

/-!
# The order of short values

* `Precedes` : the lexicographic order of byte strings;
* `compare_foldl`, `compare_append` : numbers of one length, most significant byte first, compare
  like their bytes, and so do byte strings in two pieces;
* `compare_zeros_then` : byte strings with zeros behind them compare like the strings alone, if the
  sizes break the tie;
* `Value.Spells` : a well-formed short value with the given bytes; `Spells.*` : what is read from it;
* `Value.compare_is_lexicographic` : so are short values compared, whatever their unused bytes are.
-/

namespace RopeStore
open Std (LawfulEqCmp OrientedCmp TransCmp)

/-! ## Byte strings -/

/-- A proper prefix comes first, and otherwise the string with the smaller byte where they differ
first. -/
def Precedes (a b : List UInt8) : Prop :=
  (∃ x rest, b = a ++ x :: rest) ∨
    ∃ front x y rest rest', a = front ++ x :: rest ∧ b = front ++ y :: rest' ∧ x < y

section Bytes
variable {a b : List UInt8}

/-- Digits that come later break the tie of those before. -/
theorem compare_digit (n m : Nat) (x y : UInt8) :
    Ord.compare (n * 256 + x.toNat) (m * 256 + y.toNat) =
      (Ord.compare n m).then (Ord.compare x y) := by
  have hx := x.toNat_lt
  have hy := y.toNat_lt
  rw [UInt8.compare_eq_toNat_compare_toNat]
  rcases Nat.lt_trichotomy n m with hlt | rfl | hgt
  · rw [Nat.compare_eq_lt.2 hlt, Ordering.lt_then]
    exact Nat.compare_eq_lt.2 (by omega)
  · rw [Std.compare_self, Ordering.eq_then]
    rcases Nat.lt_trichotomy x.toNat y.toNat with hlt | heq | hgt
    · rw [Nat.compare_eq_lt.2 hlt]
      exact Nat.compare_eq_lt.2 (by omega)
    · rw [heq, Std.compare_self, Std.compare_self]
    · rw [Nat.compare_eq_gt.2 hgt]
      exact Nat.compare_eq_gt.2 (by omega)
  · rw [Nat.compare_eq_gt.2 hgt, Ordering.gt_then]
    exact Nat.compare_eq_gt.2 (by omega)

/-- Numbers of one length, most significant byte first, compare like their bytes. -/
theorem compare_foldl (hlength : a.length = b.length) (n m : Nat) :
    Ord.compare (a.foldl (fun n x => n * 256 + x.toNat) n)
        (b.foldl (fun n x => n * 256 + x.toNat) m) =
      (Ord.compare n m).then (Ord.compare a b) := by
  induction a generalizing b n m with
  | nil =>
    obtain rfl := List.length_eq_zero_iff.1 hlength.symm
    rw [List.compare_nil_nil, Ordering.then_eq]
    rfl
  | cons x a ih =>
    cases b with
    | nil => cases hlength
    | cons y b =>
      rw [List.foldl_cons, List.foldl_cons, ih (Nat.succ.inj hlength), compare_digit,
        Ordering.then_assoc, List.compare_cons_cons]

theorem compare_append (hlength : a.length = b.length) (a' b' : List UInt8) :
    Ord.compare (a ++ a') (b ++ b') = (Ord.compare a b).then (Ord.compare a' b') := by
  induction a generalizing b with
  | nil =>
    obtain rfl := List.length_eq_zero_iff.1 hlength.symm
    rw [List.compare_nil_nil, Ordering.eq_then]
    rfl
  | cons x a ih =>
    cases b with
    | nil => cases hlength
    | cons y b =>
      rw [List.cons_append, List.cons_append, List.compare_cons_cons, List.compare_cons_cons,
        ih (Nat.succ.inj hlength), Ordering.then_assoc]

/-- A second part that begins with the last byte of the first says no more than one that does not. -/
theorem compare_overlap (hlength : a.length = b.length) (x y : UInt8) (a' b' : List UInt8) :
    (Ord.compare (a ++ [x]) (b ++ [y])).then (Ord.compare (x :: a') (y :: b')) =
      Ord.compare (a ++ x :: a') (b ++ y :: b') := by
  rw [compare_append hlength, compare_append hlength, List.compare_cons_cons,
    List.compare_cons_cons, List.compare_nil_nil, Ordering.then_eq]
  cases Ord.compare a b <;> cases Ord.compare x y <;> rfl

/-- Zeros come after nothing that is as long. -/
theorem compare_zeros_ne_gt (a : List UInt8) :
    Ord.compare (List.replicate a.length 0) a ≠ .gt := by
  induction a with
  | nil => exact fun hgt => nomatch List.compare_nil_nil.symm.trans hgt
  | cons x a ih =>
    rw [List.length_cons, List.replicate_succ, List.compare_cons_cons,
      UInt8.compare_eq_toNat_compare_toNat]
    intro hgt
    rcases Ordering.then_eq_gt.1 hgt with hx | ⟨-, hrest⟩
    · exact Nat.not_lt_zero _ (Nat.compare_eq_gt.1 hx)
    · exact ih hrest

/-- Where one string is over, the zeros behind it leave the order to the sizes at worst. -/
theorem compare_zeros_then_lt (a : List UInt8) :
    (Ord.compare (List.replicate a.length 0) a).then .lt = .lt := by
  have hne := compare_zeros_ne_gt a
  cases h : Ord.compare (List.replicate a.length 0) a with
  | lt => rfl
  | eq => rfl
  | gt => exact absurd h hne

theorem length_zeros_behind {n : Nat} (ha : a.length ≤ n) :
    (a ++ List.replicate (n - a.length) (0 : UInt8)).length = n := by
  rw [List.length_append, List.length_replicate, Nat.add_sub_cancel' ha]

/-- Byte strings with zeros behind them compare like the strings alone, if the sizes break the
tie. -/
theorem compare_zeros_then {n : Nat} (ha : a.length ≤ n) (hb : b.length ≤ n) :
    (Ord.compare (a ++ List.replicate (n - a.length) 0) (b ++ List.replicate (n - b.length) 0)).then
      (Ord.compare a.length b.length) = Ord.compare a b := by
  induction a generalizing b n with
  | nil =>
    cases b with
    | nil => rw [Std.compare_self, Std.compare_self, List.compare_nil_nil, Ordering.then_eq]
    | cons y b =>
      have hzeros := compare_zeros_then_lt (y :: b ++ List.replicate (n - (y :: b).length) 0)
      have hsizes : Ord.compare ([] : List UInt8).length (y :: b).length = .lt :=
        Nat.compare_eq_lt.2 (Nat.succ_pos b.length)
      rw [length_zeros_behind hb] at hzeros
      rw [hsizes, List.compare_nil_cons]
      exact hzeros
  | cons x a ih =>
    cases b with
    | nil =>
      have hzeros := congrArg Ordering.swap
        (compare_zeros_then_lt (x :: a ++ List.replicate (n - (x :: a).length) 0))
      have hsizes : Ord.compare (x :: a).length ([] : List UInt8).length = .gt :=
        Nat.compare_eq_gt.2 (Nat.succ_pos a.length)
      rw [length_zeros_behind ha, Ordering.swap_then, ← OrientedCmp.eq_swap] at hzeros
      rw [hsizes, List.compare_cons_nil]
      exact hzeros
    | cons y b =>
      cases n with
      | zero => cases ha
      | succ n =>
        have hrest := ih (Nat.le_of_succ_le_succ ha) (Nat.le_of_succ_le_succ hb)
        have hsizes : Ord.compare (x :: a).length (y :: b).length =
            Ord.compare a.length b.length := by
          simp only [List.length_cons, Nat.compare_eq_ite_lt, Nat.add_lt_add_iff_right]
        rw [hsizes, List.compare_cons_cons, ← hrest, ← Ordering.then_assoc, List.length_cons,
          List.length_cons, Nat.add_sub_add_right, Nat.add_sub_add_right, List.cons_append,
          List.cons_append, List.compare_cons_cons]

theorem compare_eq_lt_iff_precedes : Ord.compare a b = .lt ↔ Precedes a b := by
  constructor
  · intro hlt
    induction a generalizing b with
    | nil =>
      cases b with
      | nil => exact nomatch List.compare_nil_nil.symm.trans hlt
      | cons y b => exact Or.inl ⟨y, b, rfl⟩
    | cons x a ih =>
      cases b with
      | nil => exact nomatch List.compare_cons_nil.symm.trans hlt
      | cons y b =>
        rw [List.compare_cons_cons, Ordering.then_eq_lt] at hlt
        rcases hlt with hxy | ⟨heq, hrest⟩
        · rw [UInt8.compare_eq_toNat_compare_toNat, Nat.compare_eq_lt] at hxy
          exact Or.inr ⟨[], x, y, a, b, rfl, rfl, UInt8.lt_iff_toNat_lt.2 hxy⟩
        · obtain rfl := LawfulEqCmp.eq_of_compare heq
          rcases ih hrest with ⟨z, rest, rfl⟩ | ⟨front, z, z', rest, rest', rfl, rfl, hz⟩
          · exact Or.inl ⟨z, rest, rfl⟩
          · exact Or.inr ⟨x :: front, z, z', rest, rest', rfl, rfl, hz⟩
  · rintro (⟨x, rest, rfl⟩ | ⟨front, x, y, rest, rest', rfl, rfl, hxy⟩)
    · have happend := compare_append (rfl : a.length = a.length) [] (x :: rest)
      rwa [List.append_nil, Std.compare_self, List.compare_nil_cons] at happend
    · rw [compare_append rfl, Std.compare_self, List.compare_cons_cons,
        UInt8.compare_eq_toNat_compare_toNat,
        Nat.compare_eq_lt.2 (UInt8.lt_iff_toNat_lt.1 hxy)]
      rfl

end Bytes

/-! ## Payloads -/

namespace Value
variable {u v w : Value} {a b c : List UInt8}

section Words
variable (p q : Vector UInt8 15)

theorem seven_lt_length_toList : 7 < p.toList.length := by
  rw [Vector.length_toList]
  decide

/-- A payload is what stands before the byte at 7, this byte, and what stands behind it. -/
theorem take_append_seven_cons_drop : p.toList.take 7 ++ p[7] :: p.toList.drop 8 = p.toList := by
  have hlong := seven_lt_length_toList p
  rw [← Vector.getElem_toList hlong, List.getElem_cons_drop hlong, List.take_append_drop]

/-- The two words of a payload share the byte at 7. -/
theorem first_word_bytes : (p.toList.drop 0).take 8 = p.toList.take 7 ++ [p[7]] := by
  rw [List.drop_zero, List.take_succ_eq_append_getElem (seven_lt_length_toList p),
    Vector.getElem_toList]

theorem second_word_bytes : (p.toList.drop 7).take 8 = p[7] :: p.toList.drop 8 := by
  rw [List.take_of_length_le (by rw [List.length_drop, Vector.length_toList]),
    ← List.getElem_cons_drop (seven_lt_length_toList p), Vector.getElem_toList]

/-- The two words of a payload compare like its bytes. -/
theorem compare_words :
    (Ord.compare (word p 0) (word q 0)).then (Ord.compare (word p 7) (word q 7)) =
      Ord.compare p.toList q.toList := by
  have hfront : (p.toList.take 7).length = (q.toList.take 7).length := by
    rw [List.length_take, List.length_take, Vector.length_toList, Vector.length_toList]
  have hback : (p.toList.drop 8).length = (q.toList.drop 8).length := by
    rw [List.length_drop, List.length_drop, Vector.length_toList, Vector.length_toList]
  have hfirst : (p.toList.take 7 ++ [p[7]]).length = (q.toList.take 7 ++ [q[7]]).length := by
    rw [List.length_append, List.length_append, hfront]
    rfl
  have hsecond : (p[7] :: p.toList.drop 8).length = (q[7] :: q.toList.drop 8).length :=
    congrArg Nat.succ hback
  rw [word, word, word, word, first_word_bytes, first_word_bytes, second_word_bytes,
    second_word_bytes, compare_foldl hfirst, compare_foldl hsecond, Std.compare_self,
    Ordering.eq_then, Ordering.eq_then, compare_overlap hfront, take_append_seven_cons_drop,
    take_append_seven_cons_drop]

end Words

/-! ## Values that spell a byte string -/

/-- A well-formed short value with the given bytes. -/
def Spells (v : Value) (data : List UInt8) : Prop := v.Formed ∧ v.shortBytes? = some data

theorem spells_short {size : Nat} (hsize : size ≤ maxShort) (payload : Vector UInt8 15) :
    (Value.short (controlFor size) payload).Spells (payload.toList.take size) :=
  ⟨⟨size, hsize, rfl⟩, shortBytes?_short hsize payload⟩

theorem Formed.spells (hv : v.Formed) (hshort : v.isTree = false) : ∃ data, v.Spells data := by
  cases v with
  | short control payload =>
    obtain ⟨size, hsize, rfl⟩ := hv
    exact ⟨_, spells_short hsize payload⟩
  | tree slot root => exact nomatch hshort.symm.trans (isTree_tree hv)

namespace Spells

theorem eq_short (hv : v.Spells a) : a.length ≤ maxShort ∧ ∃ payload,
    v = .short (controlFor a.length) payload ∧ payload.toList.take a.length = a := by
  obtain ⟨hformed, hbytes⟩ := hv
  cases v with
  | tree slot root => cases hbytes
  | short control payload =>
    obtain ⟨size, hsize, rfl⟩ := hformed
    have htake := Option.some.inj (hbytes.symm.trans (shortBytes?_short hsize payload))
    have hlength : a.length = size := by
      rw [htake, List.length_take, Vector.length_toList]
      exact Nat.min_eq_left hsize
    rw [hlength]
    exact ⟨hsize, payload, rfl, htake.symm⟩

theorem isTree (hv : v.Spells a) : v.isTree = false := by
  obtain ⟨hlength, payload, rfl, -⟩ := hv.eq_short
  exact isTree_short hlength payload

theorem root? (hv : v.Spells a) : v.root? = none := by
  obtain ⟨-, payload, rfl, -⟩ := hv.eq_short
  rfl

theorem shortSize (hv : v.Spells a) : v.shortSize = a.length := by
  obtain ⟨hlength, payload, rfl, -⟩ := hv.eq_short
  exact (controlFor_and_one hlength).2

theorem size (hv : v.Spells a) : v.size = .ok a.length := by
  rw [Value.size, hv.isTree, ← hv.shortSize]
  rfl

theorem clean_payload (hv : v.Spells a) :
    ∃ payload, v.payload? = some payload ∧ v.clean payload = padded a 0 := by
  have hsize := hv.shortSize
  obtain ⟨hlength, payload, rfl, htake⟩ := hv.eq_short
  refine ⟨payload, ?_, ?_⟩
  · rw [payload?, isTree_short hlength]
    rfl
  · rw [clean, hsize, cut_eq_padded, htake]

theorem cleanPayload (hv : v.Spells a) : v.cleanPayload = .ok (padded a 0) := by
  obtain ⟨payload, hpayload, hclean⟩ := hv.clean_payload
  rw [Value.cleanPayload, hpayload, ← hclean]

theorem compare_eq (hv : v.Spells a) (hw : w.Spells b) :
    v.compare w = .ok (Ord.compare a b) := by
  have ha := hv.eq_short.1
  have hb := hw.eq_short.1
  rw [Value.compare, hv.isTree, hw.isTree, hv.cleanPayload, hw.cleanPayload, hv.size, hw.size]
  show Except.ok _ = _
  rw [compare_words, toList_padded ha, toList_padded hb, compare_zeros_then ha hb]

theorem same_eq (hv : v.Spells a) (hw : w.Spells b) : v.same w = .ok (decide (a = b)) := by
  have hequal : v.same w = .ok (v.control == w.control && padded a 0 == padded b 0) := by
    rw [same, hv.root?, hw.root?, hv.cleanPayload, hw.cleanPayload]
    rfl
  obtain ⟨ha, payload, rfl, -⟩ := hv.eq_short
  obtain ⟨hb, payload', rfl, -⟩ := hw.eq_short
  rw [hequal, Except.ok.injEq, Bool.eq_iff_iff, Bool.and_eq_true, beq_iff_eq, beq_iff_eq,
    decide_eq_true_iff]
  constructor
  · rintro ⟨hcontrol, hpadded⟩
    have hlength : a.length = b.length := by
      rw [← (controlFor_and_one ha).2, ← (controlFor_and_one hb).2]
      exact congrArg (fun control : UInt8 => (control >>> 1).toNat) hcontrol
    have hlists := congrArg Vector.toList hpadded
    rw [toList_padded ha, toList_padded hb] at hlists
    exact List.append_inj_left hlists hlength
  · rintro rfl
    exact ⟨rfl, rfl⟩

end Spells

/-! ## The order -/

/-- **A short value that was made by any deeds spells a byte string, whatever its unused bytes are, and
short values compare as byte strings do: a proper prefix comes first, and otherwise the smaller byte
where they differ first. So this is a total order, and two values are equal in it exactly if they are
equal, and exactly if their bytes are.** -/
theorem compare_is_lexicographic {ρ : Type} :
    (∀ (deeds : List (Deed ρ)), ∀ v ∈ (Client.after deeds).values, v.isTree = false →
      ∃ data, v.Spells data) ∧
    ∀ (u v w : Value) (a b c : List UInt8), u.Spells a → v.Spells b → w.Spells c →
      u.compare v = .ok (Ord.compare a b) ∧
      (u.compare v = .ok .lt ↔ Precedes a b) ∧
      (u.compare v = .ok .gt ↔ Precedes b a) ∧
      (u.compare v = .ok .eq ↔ u.same v = .ok true) ∧
      (u.compare v = .ok .eq ↔ a = b) ∧
      v.compare u = (u.compare v).map Ordering.swap ∧
      ∀ o o', u.compare v = .ok o → v.compare w = .ok o' → o.isLE → o'.isLE →
        ∃ o'', u.compare w = .ok o'' ∧ o''.isLE := by
  constructor
  · intro deeds v hv hshort
    exact ((Client.shows_after deeds).formed v hv).spells hshort
  · intro u v w a b c hu hv hw
    have huv := hu.compare_eq hv
    have hswap : Ord.compare a b = (Ord.compare b a).swap := OrientedCmp.eq_swap
    have hequal : u.compare v = .ok .eq ↔ a = b := by
      rw [huv, Except.ok.injEq]
      exact LawfulEqCmp.compare_eq_iff_eq
    refine ⟨huv, ?_, ?_, ?_, hequal, ?_, ?_⟩
    · rw [huv, Except.ok.injEq, compare_eq_lt_iff_precedes]
    · rw [huv, hswap, Except.ok.injEq, Ordering.swap_eq_gt, compare_eq_lt_iff_precedes]
    · rw [hequal, hu.same_eq hv, Except.ok.injEq, decide_eq_true_iff]
    · rw [huv, hv.compare_eq hu, hswap, Except.map, Ordering.swap_swap]
    · intro o o' ho ho' hle hle'
      rw [huv] at ho
      rw [hv.compare_eq hw] at ho'
      cases ho
      cases ho'
      exact ⟨_, hu.compare_eq hw, TransCmp.isLE_trans hle hle'⟩

/-- A value with bytes behind its size, and two more. -/
def overlong : List (Deed Nat) :=
  [.act .newValue, .edit 0 (.setSize 2), .edit 0 (.writeAt 0 [1, 2, 0, 9]),
    .act (.shortValue ⟨[1, 2, 0], by decide⟩), .act (.shortValue ⟨[1, 2, 1], by decide⟩)]

theorem compare_is_lexicographic_overlong :
    ∃ u v w, (Client.after overlong).values = [u, v, w] ∧
      u.Spells [1, 2] ∧ v.Spells [1, 2, 0] ∧ w.Spells [1, 2, 1] ∧
      u.compare v = .ok .lt ∧ v.compare u = .ok .gt ∧ v.compare w = .ok .lt ∧
      ∃ o, u.compare w = .ok o ∧ o.isLE := by
  obtain ⟨hspells, hcompare⟩ := @compare_is_lexicographic Nat
  refine ⟨_, _, _, rfl, ?_⟩
  have hbytes : ∀ (i : Nat) (v : Value) (data : List UInt8),
      (Client.after overlong).values[i]? = some v → v.shortBytes? = some data →
      v.isTree = false → v.Spells data := by
    intro i v data hi hdata hshort
    obtain ⟨data', hv⟩ := hspells overlong v (List.mem_of_getElem? hi) hshort
    obtain rfl := Option.some.inj (hdata.symm.trans hv.2)
    exact hv
  have hu := hbytes 0 _ [1, 2] rfl rfl rfl
  have hv := hbytes 1 _ [1, 2, 0] rfl rfl rfl
  have hw := hbytes 2 _ [1, 2, 1] rfl rfl rfl
  obtain ⟨-, huv, -, -, -, hvu, hle⟩ := hcompare _ _ _ _ _ _ hu hv hw
  obtain ⟨-, hvw, -⟩ := hcompare _ _ _ _ _ _ hv hw hu
  have hfirst := huv.2 (Or.inl ⟨0, [], rfl⟩)
  have hsecond := hvw.2 (Or.inr ⟨[1, 2], 0, 1, [], [], rfl, rfl, by decide⟩)
  rw [hfirst] at hvu
  exact ⟨hu, hv, hw, hfirst, hvu, hsecond, hle _ _ hfirst hsecond rfl rfl⟩

end Value
end RopeStore
