import Mathlib.Data.List.Basic
import Mathlib.Tactic.IntervalCases
import RopeStore.Fault
import RopeStore.Trial.Wire

/-!
# The wire form is exact

* `Reads r written` : the reader `r` takes from the front of any bytes exactly what `written` says is
  written there, and fails only where the bytes end too early; `Reads.bind` : one reader after another;
* `reads_number`, `reads_u8`, `reads_u16`, `reads_u32` : the readers of numbers and fields;
* `ReadsAs`, `reads_fields` : fields in sequence, and the fields of each variant;
* `NamesNoVariant`, `EndsInside` : the two ways in which bytes are no operation, and `run_readOp_…` :
  the reader tells them apart;
* `NamesUnknownVariant`, `EndsEarly` : the two ways in which bytes are no list;
* `decode_exact` : reading accepts exactly what writing produces, and tells these two apart.
-/

namespace RopeStore.Trial.Wire

/-! ## Bytes that end too early -/

/-- The bytes `part` are the beginning of `whole`, without its last byte at least. -/
def CutShort (part whole : List UInt8) : Prop := ∃ b more, whole = part ++ b :: more

theorem CutShort.append {part whole : List UInt8} (h : CutShort part whole) (rest : List UInt8) :
    CutShort part (whole ++ rest) := by
  obtain ⟨b, more, rfl⟩ := h
  exact ⟨b, more ++ rest, by rw [List.append_assoc, List.cons_append]⟩

theorem CutShort.prepend {part whole : List UInt8} (h : CutShort part whole)
    (before : List UInt8) : CutShort (before ++ part) (before ++ whole) := by
  obtain ⟨b, more, rfl⟩ := h
  exact ⟨b, more, by rw [List.append_assoc]⟩

theorem CutShort.length_lt {part whole : List UInt8} (h : CutShort part whole) :
    part.length < whole.length := by
  obtain ⟨b, more, rfl⟩ := h
  rw [List.length_append, List.length_cons]
  omega

/-! ## Readers -/

section Readers
variable {α β : Type} {r : Reader α} {f : α → Reader β} {bytes rest : List UInt8} {a : α}
  {e : DecodeError}

theorem run_bind_of_ok (h : r.run bytes = .ok (a, rest)) :
    (r >>= f).run bytes = (f a).run rest := by
  rw [StateT.run_bind, h]
  rfl

theorem run_bind_of_error (h : r.run bytes = .error e) : (r >>= f).run bytes = .error e := by
  rw [StateT.run_bind, h]
  rfl

/-- The reader `r` takes from the front of any bytes exactly what is written there, and fails only
where something is cut short. -/
structure Reads (r : Reader α) (written : α → List UInt8 → Prop) : Prop where
  complete : ∀ {a w}, written a w → ∀ rest, r.run (w ++ rest) = .ok (a, rest)
  sound : ∀ {bytes a rest}, r.run bytes = .ok (a, rest) → ∃ w, written a w ∧ bytes = w ++ rest
  short : ∀ {bytes e}, r.run bytes = .error e →
    e = .unexpectedEnd ∧ ∃ a w, written a w ∧ CutShort bytes w

theorem reads_pure (a : α) : Reads (pure a) fun x w => x = a ∧ w = [] where
  complete := by
    rintro x w ⟨rfl, rfl⟩ rest
    rfl
  sound := by
    intro bytes x rest h
    cases h
    exact ⟨[], ⟨rfl, rfl⟩, rfl⟩
  short := by
    intro bytes e h
    cases h

namespace Reads
variable {written written' : α → List UInt8 → Prop} {continued : α → β → List UInt8 → Prop}

theorem congr (h : Reads r written) (hiff : ∀ a w, written a w ↔ written' a w) :
    Reads r written' := by
  have heq : written = written' := funext fun a => funext fun w => propext (hiff a w)
  rwa [← heq]

/-- What two readers read one after the other is written one behind the other. -/
theorem bind (hr : Reads r written) (hf : ∀ a, Reads (f a) (continued a))
    (hsome : ∀ a, ∃ b w, continued a b w) :
    Reads (r >>= f) fun b w => ∃ a u v, written a u ∧ continued a b v ∧ w = u ++ v where
  complete := by
    rintro b w ⟨a, u, v, hu, hv, rfl⟩ rest
    rw [List.append_assoc, run_bind_of_ok (hr.complete hu _)]
    exact (hf a).complete hv rest
  sound := by
    intro bytes b rest h
    cases hrun : r.run bytes with
    | error e =>
      rw [run_bind_of_error hrun] at h
      cases h
    | ok p =>
      obtain ⟨a, mid⟩ := p
      rw [run_bind_of_ok hrun] at h
      obtain ⟨u, hu, rfl⟩ := hr.sound hrun
      obtain ⟨v, hv, rfl⟩ := (hf a).sound h
      exact ⟨u ++ v, ⟨a, u, v, hu, hv, rfl⟩, (List.append_assoc ..).symm⟩
  short := by
    intro bytes e h
    cases hrun : r.run bytes with
    | error e' =>
      rw [run_bind_of_error hrun] at h
      cases h
      obtain ⟨rfl, a, u, hu, hcut⟩ := hr.short hrun
      obtain ⟨b, v, hv⟩ := hsome a
      exact ⟨rfl, b, u ++ v, ⟨a, u, v, hu, hv, rfl⟩, hcut.append v⟩
    | ok p =>
      obtain ⟨a, mid⟩ := p
      rw [run_bind_of_ok hrun] at h
      obtain ⟨u, hu, rfl⟩ := hr.sound hrun
      obtain ⟨rfl, b, v, hv, hcut⟩ := (hf a).short h
      exact ⟨rfl, b, u ++ v, ⟨a, u, v, hu, hv, rfl⟩, hcut.prepend u⟩

/-- What is cut short is not read. Otherwise the whole could be read in two ways. -/
theorem run_of_cutShort (h : Reads r written) {w : List UInt8} (hw : written a w)
    (hcut : CutShort bytes w) : r.run bytes = .error .unexpectedEnd := by
  obtain ⟨b, more, rfl⟩ := hcut
  cases hrun : r.run bytes with
  | error e => rw [(h.short hrun).1]
  | ok p =>
    obtain ⟨a', rest⟩ := p
    obtain ⟨w', hw', rfl⟩ := h.sound hrun
    have hwhole := h.complete hw []
    rw [List.append_nil, List.append_assoc, h.complete hw'] at hwhole
    have hnone : rest ++ b :: more = [] := congrArg Prod.snd (Except.ok.inj hwhole)
    exact absurd (List.append_eq_nil_iff.1 hnone).2 (List.cons_ne_nil b more)

end Reads
end Readers

/-! ## Numbers -/

theorem reads_byte : Reads readByte fun b w => w = [b] where
  complete := by
    rintro b w rfl rest
    rfl
  sound := by
    intro bytes b rest h
    cases bytes with
    | nil => cases h
    | cons b' rest' =>
      cases h
      exact ⟨[b], rfl, rfl⟩
  short := by
    intro bytes e h
    cases bytes with
    | nil =>
      cases h
      exact ⟨rfl, 0, [0], rfl, 0, [], rfl⟩
    | cons b rest => cases h

/-- The number whose least byte is `low`. -/
theorem littleEndian_succ (low : UInt8) (count high : Nat) :
    littleEndian (count + 1) (low.toNat + 256 * high) = low :: littleEndian count high := by
  have hlow := low.toNat_lt
  have hbyte : (low.toNat + 256 * high).toUInt8 = low := by
    rw [← UInt8.toNat_inj, UInt8.toNat_ofNat']
    omega
  rw [littleEndian, hbyte]
  congr 2
  omega

theorem reads_number (count : Nat) :
    Reads (readNumber count) fun n w => n < 256 ^ count ∧ w = littleEndian count n := by
  induction count with
  | zero =>
    refine (reads_pure 0).congr fun n w => and_congr_left fun _ => ?_
    rw [Nat.pow_zero, Nat.lt_one_iff]
  | succ count ih =>
    refine (reads_byte.bind (fun low => ih.bind (fun high => reads_pure (low.toNat + 256 * high))
      fun high => ⟨_, _, rfl, rfl⟩) fun low => ⟨_, _, 0, _, _, ⟨by positivity, rfl⟩, ⟨rfl, rfl⟩,
        rfl⟩).congr fun n w => ⟨?_, ?_⟩
    · rintro ⟨low, _, _, rfl, ⟨high, _, _, ⟨hhigh, rfl⟩, ⟨rfl, rfl⟩, rfl⟩, rfl⟩
      have hlow := low.toNat_lt
      refine ⟨?_, ?_⟩
      · rw [Nat.pow_succ]
        omega
      · rw [littleEndian_succ, List.append_nil]
        rfl
    · rintro ⟨hn, rfl⟩
      have hhigh : n / 256 < 256 ^ count := by
        rw [Nat.pow_succ] at hn
        omega
      have hsplit : n = n.toUInt8.toNat + 256 * (n / 256) := by
        rw [UInt8.toNat_ofNat']
        omega
      refine ⟨n.toUInt8, [n.toUInt8], littleEndian count (n / 256), rfl,
        ⟨n / 256, _, [], ⟨hhigh, rfl⟩, ⟨hsplit, rfl⟩, (List.append_nil _).symm⟩, rfl⟩

theorem readNumber_of_length_lt {count : Nat} {bytes : List UInt8} (h : bytes.length < count) :
    (readNumber count).run bytes = .error .unexpectedEnd := by
  cases hrun : (readNumber count).run bytes with
  | error e => rw [((reads_number count).short hrun).1]
  | ok p =>
    obtain ⟨_, ⟨-, rfl⟩, rfl⟩ := (reads_number count).sound hrun
    rw [List.length_append, length_littleEndian] at h
    omega

theorem readNumber_littleEndian {count n : Nat} (h : n < 256 ^ count) (rest : List UInt8) :
    (readNumber count).run (littleEndian count n ++ rest) = .ok (n, rest) :=
  (reads_number count).complete ⟨h, rfl⟩ rest

theorem length_lt_or_number (count : Nat) (bytes : List UInt8) : bytes.length < count ∨
    ∃ n rest, n < 256 ^ count ∧ bytes = littleEndian count n ++ rest := by
  cases hrun : (readNumber count).run bytes with
  | error e =>
    obtain ⟨-, n, w, ⟨-, rfl⟩, hcut⟩ := (reads_number count).short hrun
    exact .inl (hcut.length_lt.trans_eq (length_littleEndian count n))
  | ok p =>
    obtain ⟨n, rest⟩ := p
    obtain ⟨w, ⟨hn, rfl⟩, rfl⟩ := (reads_number count).sound hrun
    exact .inr ⟨n, rest, hn, rfl⟩

theorem littleEndian_inj {count n n' : Nat} (hn : n < 256 ^ count) (hn' : n' < 256 ^ count)
    (h : littleEndian count n = littleEndian count n') : n = n' := by
  have hread := readNumber_littleEndian hn []
  rw [h, readNumber_littleEndian hn'] at hread
  exact (congrArg Prod.fst (Except.ok.inj hread)).symm

/-! ## Fields -/

theorem reads_field {α : Type} {count : Nat} {ofNat : Nat → α} {toNat : α → Nat}
    (hlt : ∀ x, toNat x < 256 ^ count) (hof : ∀ x, ofNat (toNat x) = x)
    (hto : ∀ n, n < 256 ^ count → toNat (ofNat n) = n) :
    Reads (do return ofNat (← readNumber count)) fun x w => w = littleEndian count (toNat x) := by
  refine ((reads_number count).bind (fun n => reads_pure (ofNat n)) fun n => ⟨_, _, rfl, rfl⟩).congr
    fun x w => ⟨?_, ?_⟩
  · rintro ⟨n, _, _, ⟨hn, rfl⟩, ⟨rfl, rfl⟩, rfl⟩
    rw [hto n hn, List.append_nil]
  · rintro rfl
    exact ⟨toNat x, _, [], ⟨hlt x, rfl⟩, ⟨(hof x).symm, rfl⟩, (List.append_nil _).symm⟩

theorem reads_u8 : Reads readU8 fun x w => w = littleEndian 1 x.toNat :=
  reads_field (fun x => x.toNat_lt) (fun _ => UInt8.ofNat_toNat)
    fun _ hn => UInt8.toNat_ofNat'.trans (Nat.mod_eq_of_lt hn)

theorem reads_u16 : Reads readU16 fun x w => w = littleEndian 2 x.toNat :=
  reads_field (fun x => x.toNat_lt) (fun _ => UInt16.ofNat_toNat)
    fun _ hn => UInt16.toNat_ofNat'.trans (Nat.mod_eq_of_lt hn)

theorem reads_u32 : Reads readU32 fun x w => w = littleEndian 4 x.toNat :=
  reads_field (fun x => x.toNat_lt) (fun _ => UInt32.ofNat_toNat)
    fun _ hn => UInt32.toNat_ofNat'.trans (Nat.mod_eq_of_lt hn)

/-! ## Operations -/

def fieldBytes (op : Op) : List UInt8 :=
  op.fields.flatMap fun f => littleEndian f.width.bytes f.value

def opBytes (op : Op) : List UInt8 := littleEndian 4 op.variant ++ fieldBytes op

theorem encode_eq (ops : List Op) :
    encode ops = littleEndian 8 ops.length ++ ops.flatMap opBytes := by
  have hop : ∀ op, (opChunks op).flatten = opBytes op := fun op => by
    rw [opChunks, List.flatten_cons, opBytes, fieldBytes, List.flatMap_def]
  have hops : (ops.flatMap opChunks).flatten = ops.flatMap opBytes := by
    induction ops with
    | nil => rfl
    | cons op rest ih => rw [List.flatMap_cons, List.flatten_append, ih, hop, List.flatMap_cons]
  rw [encode, chunks, List.flatten_cons, hops]

theorem variant_lt (op : Op) : op.variant < 10 := by
  cases op <;> exact Nat.lt_of_sub_pos (Nat.succ_pos _)

theorem variant_lt_pow (op : Op) : op.variant < 256 ^ 4 :=
  (variant_lt op).trans (by decide)

/-! ### Fields in sequence -/

section Sequence
variable {α β γ : Type} {r : Reader α} {form : α → List UInt8} {form' : γ → List UInt8}

/-- The reader reads what `make` makes of some fields, written as `form` writes these fields. -/
def ReadsAs (r : Reader β) (make : γ → β) (form : γ → List UInt8) : Prop :=
  Reads r fun b w => ∃ y, b = make y ∧ w = form y

theorem readsAs_last (hr : Reads r fun x w => w = form x) (make : α → β) :
    ReadsAs (do return make (← r)) make form := by
  refine (hr.bind (fun x => reads_pure (make x)) fun x => ⟨_, _, rfl, rfl⟩).congr
    fun b w => ⟨?_, ?_⟩
  · rintro ⟨x, _, _, rfl, ⟨rfl, rfl⟩, rfl⟩
    exact ⟨x, rfl, List.append_nil _⟩
  · rintro ⟨x, rfl, rfl⟩
    exact ⟨x, _, [], rfl, ⟨rfl, rfl⟩, (List.append_nil _).symm⟩

theorem ReadsAs.field [Nonempty γ] {f : α → Reader β} {make : α → γ → β}
    (hf : ∀ x, ReadsAs (f x) (make x) form') (hr : Reads r fun x w => w = form x) :
    ReadsAs (r >>= f) (fun p : α × γ => make p.1 p.2) fun p => form p.1 ++ form' p.2 := by
  refine (hr.bind hf fun x => ⟨_, _, Classical.arbitrary γ, rfl, rfl⟩).congr fun b w => ⟨?_, ?_⟩
  · rintro ⟨x, _, _, rfl, ⟨y, rfl, rfl⟩, rfl⟩
    exact ⟨(x, y), rfl, rfl⟩
  · rintro ⟨⟨x, y⟩, rfl, rfl⟩
    exact ⟨x, _, _, rfl, ⟨y, rfl, rfl⟩, rfl⟩

/-- The fields of the operations of one variant. -/
theorem ReadsAs.variant {r : Reader Op} {make : γ → Op} {index : Nat} (hr : ReadsAs r make form')
    (hmake : ∀ y, (make y).variant = index ∧ fieldBytes (make y) = form' y)
    (hall : ∀ op : Op, op.variant = index → ∃ y, op = make y) :
    Reads r fun op w => op.variant = index ∧ w = fieldBytes op := by
  refine Reads.congr hr fun op w => ⟨?_, ?_⟩
  · rintro ⟨y, rfl, rfl⟩
    exact ⟨(hmake y).1, (hmake y).2.symm⟩
  · rintro ⟨hop, rfl⟩
    obtain ⟨y, rfl⟩ := hall op hop
    exact ⟨y, rfl, (hmake y).2⟩

end Sequence

theorem reads_id {index : Nat} {make : UInt32 → Op}
    (hmake : ∀ id, (make id).variant = index ∧ fieldBytes (make id) = littleEndian 4 id.toNat)
    (hall : ∀ op : Op, op.variant = index → ∃ id, op = make id) :
    Reads (do return make (← readU32)) fun op w => op.variant = index ∧ w = fieldBytes op :=
  (readsAs_last reads_u32 make).variant hmake hall

theorem reads_filled {index : Nat} {make : UInt32 → UInt16 → UInt8 → Op}
    (hmake : ∀ id length fill, (make id length fill).variant = index ∧
      fieldBytes (make id length fill) =
        littleEndian 4 id.toNat ++ (littleEndian 2 length.toNat ++ littleEndian 1 fill.toNat))
    (hall : ∀ op : Op, op.variant = index → ∃ id length fill, op = make id length fill) :
    Reads (do return make (← readU32) (← readU16) (← readU8))
      fun op w => op.variant = index ∧ w = fieldBytes op := by
  refine (ReadsAs.field (fun id => ReadsAs.field (fun length => readsAs_last reads_u8
    (make id length)) reads_u16) reads_u32).variant (fun p => hmake p.1 p.2.1 p.2.2)
    fun op hop => ?_
  obtain ⟨id, length, fill, rfl⟩ := hall op hop
  exact ⟨(id, length, fill), rfl⟩

/-- The reader of the fields of each variant reads the fields of the operations of this variant. -/
theorem reads_fields {index : Nat} (h : index < 10) :
    Reads (readFields index) fun op w => op.variant = index ∧ w = fieldBytes op := by
  interval_cases index
  case «0» =>
    refine reads_filled (fun _ _ _ => ⟨rfl, rfl⟩) fun op hop => ?_
    cases op <;> cases hop
    exact ⟨_, _, _, rfl⟩
  case «1» =>
    refine reads_filled (fun _ _ _ => ⟨rfl, rfl⟩) fun op hop => ?_
    cases op <;> cases hop
    exact ⟨_, _, _, rfl⟩
  case «2» =>
    refine (ReadsAs.field (fun id => ReadsAs.field (fun src => ReadsAs.field (fun pos =>
      readsAs_last reads_u16 (Op.subRange id src pos)) reads_u16) reads_u32) reads_u32).variant
      (fun _ => ⟨rfl, rfl⟩) fun op hop => ?_
    cases op <;> cases hop
    exact ⟨(_, _, _, _), rfl⟩
  case «3» =>
    refine (ReadsAs.field (fun id => readsAs_last reads_u32 (Op.cloneNode id)) reads_u32).variant
      (fun _ => ⟨rfl, rfl⟩) fun op hop => ?_
    cases op <;> cases hop
    exact ⟨(_, _), rfl⟩
  case «5» =>
    refine (ReadsAs.field (fun id => ReadsAs.field (fun length => readsAs_last reads_u8
      (Op.append id length)) reads_u8) reads_u32).variant (fun _ => ⟨rfl, rfl⟩) fun op hop => ?_
    cases op <;> cases hop
    exact ⟨(_, _, _), rfl⟩
  all_goals
    refine reads_id (fun _ => ⟨rfl, rfl⟩) fun op hop => ?_
    cases op <;> cases hop
    exact ⟨_, rfl⟩

/-! ## One operation -/

/-- The bytes begin with a variant that does not exist. -/
def NamesNoVariant (bytes : List UInt8) : Prop :=
  ∃ index rest, 9 < index ∧ index < UInt32.size ∧ bytes = littleEndian 4 index ++ rest

/-- The bytes end inside an operation: its variant is not complete, or its fields are not. -/
def EndsInside (bytes : List UInt8) : Prop :=
  bytes.length < 4 ∨ ∃ op, CutShort bytes (opBytes op)

theorem run_readOp_variant {index : Nat} (h : index < UInt32.size) (rest : List UInt8) :
    readOp.run (littleEndian 4 index ++ rest) = (readFields index).run rest :=
  run_bind_of_ok (readNumber_littleEndian h rest)

theorem run_readOp_of_length_lt {bytes : List UInt8} (h : bytes.length < 4) :
    readOp.run bytes = .error .unexpectedEnd :=
  run_bind_of_error (readNumber_of_length_lt h)

theorem run_readFields_of_lt {index : Nat} (h : 9 < index) (bytes : List UInt8) :
    (readFields index).run bytes = .error .unexpectedVariant := by
  obtain ⟨more, rfl⟩ := Nat.exists_eq_add_of_lt h
  rw [Nat.add_right_comm, Nat.add_comm]
  rfl

theorem run_readOp_opBytes (op : Op) (rest : List UInt8) :
    readOp.run (opBytes op ++ rest) = .ok (op, rest) := by
  rw [opBytes, List.append_assoc, run_readOp_variant (variant_lt_pow op)]
  exact (reads_fields (variant_lt op)).complete ⟨rfl, rfl⟩ rest

theorem run_readOp_eq_ok {bytes rest : List UInt8} {op : Op}
    (h : readOp.run bytes = .ok (op, rest)) : bytes = opBytes op ++ rest := by
  obtain hlen | ⟨index, mid, hindex, rfl⟩ := length_lt_or_number 4 bytes
  · rw [run_readOp_of_length_lt hlen] at h
    cases h
  rw [run_readOp_variant hindex] at h
  obtain hlt | hge := Nat.lt_or_ge index 10
  · obtain ⟨w, ⟨rfl, rfl⟩, rfl⟩ := (reads_fields hlt).sound h
    rw [opBytes, List.append_assoc]
  · rw [run_readFields_of_lt hge] at h
    cases h

theorem run_readOp_eq_unexpectedVariant_iff {bytes : List UInt8} :
    readOp.run bytes = .error .unexpectedVariant ↔ NamesNoVariant bytes := by
  refine ⟨fun h => ?_, ?_⟩
  · obtain hlen | ⟨index, rest, hindex, rfl⟩ := length_lt_or_number 4 bytes
    · rw [run_readOp_of_length_lt hlen] at h
      cases h
    rw [run_readOp_variant hindex] at h
    obtain hlt | hge := Nat.lt_or_ge index 10
    · cases ((reads_fields hlt).short h).1
    · exact ⟨index, rest, hge, hindex, rfl⟩
  · rintro ⟨index, rest, hge, hindex, rfl⟩
    rw [run_readOp_variant hindex, run_readFields_of_lt hge]

theorem run_readOp_eq_unexpectedEnd_iff {bytes : List UInt8} :
    readOp.run bytes = .error .unexpectedEnd ↔ EndsInside bytes := by
  obtain hlen | ⟨index, rest, hindex, rfl⟩ := length_lt_or_number 4 bytes
  · exact iff_of_true (run_readOp_of_length_lt hlen) (.inl hlen)
  rw [run_readOp_variant hindex]
  refine ⟨fun h => ?_, ?_⟩
  · obtain hlt | hge := Nat.lt_or_ge index 10
    · obtain ⟨-, op, w, ⟨rfl, rfl⟩, hcut⟩ := (reads_fields hlt).short h
      exact .inr ⟨op, hcut.prepend _⟩
    · rw [run_readFields_of_lt hge] at h
      cases h
  · rintro (hlen | ⟨op, b, more, hwhole⟩)
    · rw [List.length_append, length_littleEndian] at hlen
      omega
    · rw [opBytes, List.append_assoc] at hwhole
      obtain ⟨hvariant, hfields⟩ := List.append_inj hwhole (by rw [length_littleEndian,
        length_littleEndian])
      obtain rfl := littleEndian_inj (variant_lt_pow op) hindex hvariant
      exact (reads_fields (variant_lt op)).run_of_cutShort ⟨rfl, rfl⟩ ⟨b, more, hfields⟩

/-! ## Operations in sequence -/

theorem run_readOps_flatMap (ops : List Op) (rest : List UInt8) :
    (readOps ops.length).run (ops.flatMap opBytes ++ rest) = .ok (ops, rest) := by
  induction ops with
  | nil => rfl
  | cons op later ih =>
    rw [List.flatMap_cons, List.append_assoc, List.length_cons, readOps,
      run_bind_of_ok (run_readOp_opBytes op _), run_bind_of_ok ih]
    rfl

theorem run_readOps_eq_ok {count : Nat} {bytes rest : List UInt8} {ops : List Op}
    (h : (readOps count).run bytes = .ok (ops, rest)) :
    ops.length = count ∧ bytes = ops.flatMap opBytes ++ rest := by
  induction count generalizing bytes ops with
  | zero =>
    cases h
    exact ⟨rfl, rfl⟩
  | succ count ih =>
    rw [readOps] at h
    cases hop : readOp.run bytes with
    | error e =>
      rw [run_bind_of_error hop] at h
      cases h
    | ok p =>
      obtain ⟨op, mid⟩ := p
      rw [run_bind_of_ok hop] at h
      cases hlater : (readOps count).run mid with
      | error e =>
        rw [run_bind_of_error hlater] at h
        cases h
      | ok p =>
        obtain ⟨later, rest'⟩ := p
        rw [run_bind_of_ok hlater] at h
        cases h
        obtain ⟨hcount, rfl⟩ := ih hlater
        refine ⟨congrArg (· + 1) hcount, ?_⟩
        rw [run_readOp_eq_ok hop, List.flatMap_cons, List.append_assoc]

/-- A list is not read for the reason for which its first bad operation is not. -/
theorem run_readOps_eq_error_iff {count : Nat} {bytes : List UInt8} {e : DecodeError} :
    (readOps count).run bytes = .error e ↔ ∃ (done : List Op) (part : List UInt8), done.length < count ∧
      bytes = done.flatMap opBytes ++ part ∧ readOp.run part = .error e := by
  induction count generalizing bytes with
  | zero =>
    refine ⟨fun h => ?_, ?_⟩
    · cases h
    · rintro ⟨done, _, hdone, -⟩
      exact absurd hdone (Nat.not_lt_zero _)
  | succ count ih =>
    rw [readOps]
    refine ⟨fun h => ?_, ?_⟩
    · cases hop : readOp.run bytes with
      | error e' =>
        rw [run_bind_of_error hop] at h
        cases h
        exact ⟨[], bytes, Nat.succ_pos _, rfl, hop⟩
      | ok p =>
        obtain ⟨op, mid⟩ := p
        rw [run_bind_of_ok hop] at h
        cases hlater : (readOps count).run mid with
        | error e' =>
          rw [run_bind_of_error hlater] at h
          cases h
          obtain ⟨done, part, hdone, rfl, hpart⟩ := ih.1 hlater
          refine ⟨op :: done, part, Nat.succ_lt_succ hdone, ?_, hpart⟩
          rw [run_readOp_eq_ok hop, List.flatMap_cons, List.append_assoc]
        | ok p =>
          rw [run_bind_of_ok hlater] at h
          cases h
    · rintro ⟨_ | ⟨op, done⟩, part, hdone, rfl, hpart⟩
      · exact run_bind_of_error hpart
      · rw [List.flatMap_cons, List.append_assoc, run_bind_of_ok (run_readOp_opBytes op _)]
        exact run_bind_of_error (ih.2 ⟨done, part, Nat.lt_of_succ_lt_succ hdone, rfl, hpart⟩)

/-! ## The whole -/

/-- The list that `bytes` announce is longer than the operations that stand complete at its front, and
`part` is what stands where the next one is due. -/
def Reaches (bytes part : List UInt8) : Prop :=
  ∃ (count : Nat) (done : List Op), count < wordBound ∧ done.length < count ∧
    bytes = littleEndian 8 count ++ (done.flatMap opBytes ++ part)

/-- Behind complete operations, and where another is due, a variant is met that does not exist. -/
def NamesUnknownVariant (bytes : List UInt8) : Prop :=
  ∃ part, Reaches bytes part ∧ NamesNoVariant part

/-- The bytes end before the length of the list is complete, or inside an operation that is due. -/
def EndsEarly (bytes : List UInt8) : Prop :=
  bytes.length < 8 ∨ ∃ part, Reaches bytes part ∧ EndsInside part

/-- A list whose length can be written. -/
abbrev OpList := { ops : List Op // ops.length < wordBound }

theorem run_decode_count {count : Nat} (h : count < wordBound) (rest : List UInt8) :
    decode (littleEndian 8 count ++ rest) = (readOps count).run rest :=
  run_bind_of_ok (readNumber_littleEndian h rest)

theorem decode_encode {ops : List Op} (h : ops.length < wordBound) (rest : List UInt8) :
    decode (encode ops ++ rest) = .ok (ops, rest) := by
  rw [encode_eq, List.append_assoc, run_decode_count h, run_readOps_flatMap]

theorem decode_eq_ok {bytes rest : List UInt8} {ops : List Op}
    (h : decode bytes = .ok (ops, rest)) :
    ops.length < wordBound ∧ bytes = encode ops ++ rest := by
  obtain hlen | ⟨count, mid, hcount, rfl⟩ := length_lt_or_number 8 bytes
  · rw [decode, run_bind_of_error (readNumber_of_length_lt hlen)] at h
    cases h
  rw [run_decode_count hcount] at h
  obtain ⟨rfl, rfl⟩ := run_readOps_eq_ok h
  exact ⟨hcount, by rw [encode_eq, List.append_assoc]⟩

/-- Bytes are not read because their length is not complete, or for the reason for which their first bad
operation is not. -/
theorem decode_eq_error_iff {bytes : List UInt8} {e : DecodeError} :
    decode bytes = .error e ↔ bytes.length < 8 ∧ e = .unexpectedEnd ∨
      ∃ part, Reaches bytes part ∧ readOp.run part = .error e := by
  refine ⟨fun h => ?_, ?_⟩
  · obtain hlen | ⟨count, mid, hcount, rfl⟩ := length_lt_or_number 8 bytes
    · rw [decode, run_bind_of_error (readNumber_of_length_lt hlen)] at h
      cases h
      exact .inl ⟨hlen, rfl⟩
    · rw [run_decode_count hcount] at h
      obtain ⟨done, part, hdone, rfl, hpart⟩ := run_readOps_eq_error_iff.1 h
      exact .inr ⟨part, ⟨count, done, hcount, hdone, rfl⟩, hpart⟩
  · rintro (⟨hlen, rfl⟩ | ⟨part, ⟨count, done, hcount, hdone, rfl⟩, hpart⟩)
    · exact run_bind_of_error (readNumber_of_length_lt hlen)
    · rw [run_decode_count hcount]
      exact run_readOps_eq_error_iff.2 ⟨done, part, hdone, rfl, hpart⟩

theorem decode_eq_unexpectedVariant_iff {bytes : List UInt8} :
    decode bytes = .error .unexpectedVariant ↔ NamesUnknownVariant bytes := by
  rw [decode_eq_error_iff]
  refine ⟨?_, fun ⟨part, hpart, h⟩ => .inr ⟨part, hpart, run_readOp_eq_unexpectedVariant_iff.2 h⟩⟩
  rintro (⟨-, h⟩ | ⟨part, hpart, h⟩)
  · cases h
  · exact ⟨part, hpart, run_readOp_eq_unexpectedVariant_iff.1 h⟩

theorem decode_eq_unexpectedEnd_iff {bytes : List UInt8} :
    decode bytes = .error .unexpectedEnd ↔ EndsEarly bytes := by
  rw [decode_eq_error_iff]
  refine or_congr (and_iff_left rfl) (exists_congr fun part => and_congr_right fun _ => ?_)
  exact run_readOp_eq_unexpectedEnd_iff

/-- No written form is the beginning of another. -/
theorem encode_prefix_iff {ops ops' : OpList} :
    encode ops.1 <+: encode ops'.1 ↔ ops = ops' := by
  refine ⟨fun ⟨rest, h⟩ => ?_, fun h => h ▸ List.prefix_rfl⟩
  have hread := decode_encode ops'.2 []
  rw [List.append_nil, ← h, decode_encode ops.2] at hread
  exact Subtype.ext (congrArg Prod.fst (Except.ok.inj hread))

/-- Reading gives back what was written and takes exactly its bytes, whatever follows; it accepts
nothing else. Where it fails, the bytes name a variant that does not exist or end early, and it tells
which. -/
theorem decode_exact :
    (∀ (ops : OpList) (rest : List UInt8), decode (encode ops ++ rest) = .ok (ops, rest)) ∧
    (∀ (bytes : List UInt8) (ops : List Op) (rest : List UInt8), decode bytes = .ok (ops, rest) ↔
      ops.length < wordBound ∧ bytes = encode ops ++ rest) ∧
    (∀ bytes, decode bytes = .error .unexpectedVariant ↔ NamesUnknownVariant bytes) ∧
    (∀ bytes, decode bytes = .error .unexpectedEnd ↔ EndsEarly bytes) ∧
    ∀ ops ops' : OpList, encode ops <+: encode ops' ↔ ops = ops' := by
  refine ⟨fun ops => decode_encode ops.2, fun bytes ops rest => ⟨decode_eq_ok, ?_⟩,
    fun _ => decode_eq_unexpectedVariant_iff, fun _ => decode_eq_unexpectedEnd_iff,
    fun _ _ => encode_prefix_iff⟩
  rintro ⟨hlen, rfl⟩
  exact decode_encode hlen rest

end RopeStore.Trial.Wire
