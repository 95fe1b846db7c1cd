import ClassForge.Key

/-!
# Write-once tables

A table maps keys to values.  An entry is added once and never replaced, and the
entries keep the order in which they were added.
-/

namespace ClassForge

/-- Values under keys, in the order in which they were added. -/
structure KeyTable (α : Type) where
  entries : List (Key × α)
  deriving DecidableEq

namespace KeyTable

variable {α : Type}

/-- The table without entries. -/
def empty : KeyTable α := ⟨[]⟩

/-- The value under a key. -/
def get? (table : KeyTable α) (key : Key) : Option α :=
  table.entries.lookup key

/-- Whether a key has an entry. -/
def contains (table : KeyTable α) (key : Key) : Bool :=
  (table.get? key).isSome

/-- Number of entries. -/
def size (table : KeyTable α) : Nat :=
  table.entries.length

/-- Whether there is no entry. -/
def isEmpty (table : KeyTable α) : Bool :=
  table.entries.isEmpty

/-- Add an entry, unless the key is taken. -/
def insert? (table : KeyTable α) (key : Key) (value : α) : Option (KeyTable α) :=
  if table.contains key then none else some ⟨table.entries ++ [(key, value)]⟩

/-- The entries in ascending order of keys. -/
def sorted (table : KeyTable α) : List (Key × α) :=
  table.entries.mergeSort fun left right => (left.1.cmp right.1).isLE

@[simp]
theorem get?_empty (key : Key) : (empty : KeyTable α).get? key = none :=
  rfl

/-- Looking up in a table that one entry was added to. -/
theorem get?_insert?
    {table extended : KeyTable α}
    {key : Key}
    {value : α}
    (added : table.insert? key value = some extended)
    (other : Key) :
    extended.get? other = if other = key then some value else table.get? other := by
  have fresh : table.get? key = none := by
    by_cases taken : table.contains key
    · simp [insert?, taken] at added
    · simpa [contains] using taken
  have shape : extended.entries = table.entries ++ [(key, value)] := by
    simp only [insert?, contains, fresh, Option.isSome_none, Bool.false_eq_true,
      if_false, Option.some.injEq] at added
    rw [← added]
  simp only [get?] at fresh ⊢
  rw [shape, List.lookup_append]
  by_cases same : other = key
  · subst same
    simp [fresh]
  · have differs : (other == key) = false := by simpa using same
    simp [same, List.lookup_cons, differs]

end KeyTable

end ClassForge
