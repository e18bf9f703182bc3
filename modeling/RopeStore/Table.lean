/-!
# Tables

A table keeps values by key, in the order of the keys. `get?`, `insert` and `erase` are the usual
operations; `keysWhere` and `first?` read the entries in their order. `insert` and `erase` change what
`get?` finds at one key only.
-/

namespace RopeStore

/-- Values by key, in the order of the keys. -/
structure Table (κ α : Type) where
  entries : List (κ × α)

namespace Table
variable {κ α : Type}

def empty : Table κ α := ⟨[]⟩

def get? [DecidableEq κ] (t : Table κ α) (key : κ) : Option α :=
  (t.entries.find? fun entry => entry.1 = key).map (·.2)

def insertEntry [DecidableEq κ] [LT κ] [DecidableLT κ] (key : κ) (value : α) :
    List (κ × α) → List (κ × α)
  | [] => [(key, value)]
  | entry :: rest =>
    if key < entry.1 then (key, value) :: entry :: rest
    else if key = entry.1 then (key, value) :: rest
    else entry :: insertEntry key value rest

/-- The table with `value` put at `key`, in the place of a value that is there. -/
def insert [DecidableEq κ] [LT κ] [DecidableLT κ] (t : Table κ α) (key : κ) (value : α) :
    Table κ α :=
  ⟨insertEntry key value t.entries⟩

def erase [DecidableEq κ] (t : Table κ α) (key : κ) : Table κ α :=
  ⟨t.entries.filter fun entry => entry.1 ≠ key⟩

def first? (t : Table κ α) : Option (κ × α) := t.entries.head?

def values (t : Table κ α) : List α := t.entries.map (·.2)

/-- The keys of the values with a property, in their order. -/
def keysWhere (t : Table κ α) (holds : α → Bool) : List κ :=
  (t.entries.filter fun entry => holds entry.2).map (·.1)

def size (t : Table κ α) : Nat := t.entries.length

/-! ## What is found -/

variable [DecidableEq κ]

@[simp] theorem get?_empty (key : κ) : (empty : Table κ α).get? key = none := rfl

@[simp] theorem get?_erase_self (t : Table κ α) (key : κ) : (t.erase key).get? key = none := by
  simp [get?, erase]

theorem get?_erase_of_ne {key other : κ} (t : Table κ α) (h : other ≠ key) :
    (t.erase key).get? other = t.get? other := by
  simp only [get?, erase, List.find?_filter]
  congr 2
  funext entry
  by_cases eq : entry.1 = other <;> simp [eq, h]

variable [LT κ] [DecidableLT κ]

theorem find?_insertEntry_self (key : κ) (value : α) (entries : List (κ × α)) :
    ((insertEntry key value entries).find? fun entry => entry.1 = key) = some (key, value) := by
  induction entries with
  | nil => simp [insertEntry]
  | cons entry rest ih =>
    by_cases less : key < entry.1
    · simp [insertEntry, less]
    · by_cases eq : key = entry.1
      · subst eq
        simp [insertEntry, less]
      · simp [insertEntry, less, eq, Ne.symm eq, ih]

theorem find?_insertEntry_of_ne {key other : κ} (value : α) (entries : List (κ × α))
    (h : other ≠ key) : ((insertEntry key value entries).find? fun entry => entry.1 = other) =
      entries.find? fun entry => entry.1 = other := by
  induction entries with
  | nil => simp [insertEntry, h.symm]
  | cons entry rest ih =>
    by_cases less : key < entry.1
    · simp [insertEntry, less, h.symm]
    · by_cases eq : key = entry.1
      · subst eq
        simp [insertEntry, less, h.symm]
      · simp [insertEntry, less, eq, List.find?_cons, ih]

@[simp] theorem get?_insert_self (t : Table κ α) (key : κ) (value : α) :
    (t.insert key value).get? key = some value := by
  simp [get?, insert, find?_insertEntry_self]

theorem get?_insert_of_ne {key other : κ} (t : Table κ α) (value : α) (h : other ≠ key) :
    (t.insert key value).get? other = t.get? other := by
  simp [get?, insert, find?_insertEntry_of_ne value t.entries h]

end Table
end RopeStore
