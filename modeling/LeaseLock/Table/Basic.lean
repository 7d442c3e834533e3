/-
# LeaseLock.Table.Basic -- rows of a lease table

A lease table has at most one row per key; this is part of its type. It is seen through `Table.row?`,
the row of a key. Deadlines are of any type `δ`: each server has its own.
-/

namespace LeaseLock

/-- A row of the lease table. -/
structure Row (δ : Type) where
  key : String
  token : String
  deadline : δ
deriving DecidableEq, Repr, Inhabited

/-- **Lease table**: rows with different keys, in no particular order. -/
structure Table (δ : Type) where
  rows : List (Row δ)
  nodup : (rows.map Row.key).Nodup
deriving Repr

namespace Table

variable {δ : Type}

instance : Inhabited (Table δ) := ⟨⟨[], by simp⟩⟩

instance : EmptyCollection (Table δ) := ⟨⟨[], by simp⟩⟩

/-- The row of a key. -/
def row? (t : Table δ) (key : String) : Option (Row δ) := t.rows.find? fun r => r.key = key

/-- Whether the key has a row. -/
def contains (t : Table δ) (key : String) : Bool := t.rows.any fun r => r.key = key

/-- Changes token and deadline of every row that is picked; keys stay. -/
def modify (t : Table δ) (picked : Row δ → Bool) (token : Row δ → String) (deadline : δ) : Table δ where
  rows := t.rows.map fun r => if picked r then ⟨r.key, token r, deadline⟩ else r
  nodup := by
    have same : (Row.key ∘ fun r : Row δ => if picked r then ⟨r.key, token r, deadline⟩ else r) =
        Row.key := by
      funext r
      simp only [Function.comp_apply]
      split <;> rfl
    rw [List.map_map, same]
    exact t.nodup

/-- Deletes every row that is picked. -/
def erase (t : Table δ) (picked : Row δ → Bool) : Table δ where
  rows := t.rows.filter fun r => !picked r
  nodup := t.nodup.sublist (List.filter_sublist.map Row.key)

/-- How many rows are picked. -/
def count (t : Table δ) (picked : Row δ → Bool) : Nat := t.rows.countP picked

/-- Adds a row unless its key has one already. -/
def insert? (t : Table δ) (r : Row δ) : Option (Table δ) :=
  if h : t.contains r.key then none
  else some
    { rows := r :: t.rows
      nodup := by
        simp only [contains, List.any_eq_true, decide_eq_true_eq, not_exists, not_and] at h
        simp only [List.map_cons, List.nodup_cons, List.mem_map, not_exists, not_and]
        exact ⟨h, t.nodup⟩ }

/-- The rows in ascending order of their keys. -/
def sorted (t : Table δ) : List (Row δ) := t.rows.mergeSort fun r s => r.key ≤ s.key

end Table

end LeaseLock
