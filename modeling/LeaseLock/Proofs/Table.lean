/-
# LeaseLock.Proofs.Table -- a lease table seen through the rows of its keys

`Table.row?` tells everything about a lease table that a statement can observe: a row is in the table
exactly when it is the row of its key. The lemmas here say what each table operation does to that
view, so that nothing later looks at the list of rows.
-/
import LeaseLock.Table.Basic
import Mathlib

namespace LeaseLock.Table

variable {δ : Type}

/-- No key has two rows. -/
theorem eq_of_key_eq (t : Table δ) {r s : Row δ} (hr : r ∈ t.rows) (hs : s ∈ t.rows)
    (h : r.key = s.key) : r = s :=
  List.inj_on_of_nodup_map t.nodup hr hs h

theorem row?_eq_some_iff {t : Table δ} {k : String} {r : Row δ} :
    t.row? k = some r ↔ r ∈ t.rows ∧ r.key = k := by
  constructor
  · intro h
    have found := List.find?_some h
    exact ⟨List.mem_of_find?_eq_some h, by simpa using found⟩
  · rintro ⟨hr, rfl⟩
    cases h : t.row? r.key with
    | none =>
        have absent := List.find?_eq_none.mp h r hr
        simp at absent
    | some s =>
        have hs : s ∈ t.rows := List.mem_of_find?_eq_some h
        have key : s.key = r.key := by simpa using List.find?_some h
        rw [t.eq_of_key_eq hs hr key]

theorem row?_eq_none_iff {t : Table δ} {k : String} :
    t.row? k = none ↔ ∀ r ∈ t.rows, r.key ≠ k := by
  simp [row?]

/-- The row of a key has that key. -/
theorem key_of_row? {t : Table δ} {k : String} {r : Row δ} (h : t.row? k = some r) : r.key = k :=
  (row?_eq_some_iff.mp h).2

@[simp]
theorem row?_empty (k : String) : (∅ : Table δ).row? k = none := rfl

/-- A change of token and deadline is a change of each key's row by itself. -/
theorem row?_modify (t : Table δ) (picked : Row δ → Bool) (token : Row δ → String) (d : δ)
    (k : String) :
    (t.modify picked token d).row? k =
      (t.row? k).map fun r => if picked r then ⟨r.key, token r, d⟩ else r := by
  have same : ∀ r : Row δ, (if picked r then ⟨r.key, token r, d⟩ else r : Row δ).key = r.key := by
    intro r
    split <;> rfl
  ext s
  simp only [row?_eq_some_iff, Option.map_eq_some_iff, modify, List.mem_map]
  constructor
  · rintro ⟨⟨r, hr, rfl⟩, hk⟩
    exact ⟨r, ⟨hr, (same r).symm.trans hk⟩, rfl⟩
  · rintro ⟨r, ⟨hr, hk⟩, rfl⟩
    exact ⟨⟨r, hr, rfl⟩, (same r).trans hk⟩

/-- A deletion takes away the row of each key by itself. -/
theorem row?_erase (t : Table δ) (picked : Row δ → Bool) (k : String) :
    (t.erase picked).row? k = (t.row? k).filter fun r => !picked r := by
  ext s
  simp only [row?_eq_some_iff, Option.filter_eq_some_iff, erase, List.mem_filter]
  tauto

theorem contains_eq (t : Table δ) (k : String) : t.contains k = (t.row? k).isSome := by
  rw [Bool.eq_iff_iff, contains, row?, List.any_eq_true, List.find?_isSome]

theorem insert?_eq_none_iff {t : Table δ} {r : Row δ} :
    t.insert? r = none ↔ ∃ s, t.row? r.key = some s := by
  rw [← Option.isSome_iff_exists, ← contains_eq, insert?]
  split <;> simp_all

/-- An insertion fills the place of a key that had no row. -/
theorem row?_insert? {t t' : Table δ} {r : Row δ} (h : t.insert? r = some t') :
    t.row? r.key = none ∧ t'.row? r.key = some r ∧ ∀ k, k ≠ r.key → t'.row? k = t.row? k := by
  rw [insert?] at h
  split at h
  · simp at h
  · rename_i absent
    obtain rfl := Option.some.inj h
    rw [contains_eq, Option.not_isSome_iff_eq_none] at absent
    refine ⟨absent, ?_, ?_⟩
    · simp [row?]
    · intro k hk
      exact List.find?_cons_of_neg (by simpa using Ne.symm hk)

/-- An insertion for a key without a row succeeds. -/
theorem insert?_of_row?_eq_none {t : Table δ} {r : Row δ} (h : t.row? r.key = none) :
    ∃ t', t.insert? r = some t' := by
  cases hins : t.insert? r with
  | none =>
      obtain ⟨s, hs⟩ := insert?_eq_none_iff.mp hins
      rw [h] at hs
      exact absurd hs (by simp)
  | some t' => exact ⟨t', rfl⟩

/-- Of rows with one key at most one is picked. -/
theorem count_of_key {t : Table δ} {picked : Row δ → Bool} {k : String}
    (hk : ∀ r, picked r → r.key = k) :
    t.count picked = if (t.row? k).any picked then 1 else 0 := by
  cases hrow : t.row? k with
  | none =>
      have zero : t.count picked = 0 := by
        rw [count, List.countP_eq_zero]
        intro r hr hp
        exact row?_eq_none_iff.mp hrow r hr (hk r hp)
      simpa using zero
  | some r =>
      obtain ⟨hr, hkey⟩ := row?_eq_some_iff.mp hrow
      have only : ∀ s ∈ t.rows, picked s = true → s = r := by
        intro s hs hp
        exact t.eq_of_key_eq hs hr ((hk s hp).trans hkey.symm)
      by_cases hp : picked r
      · -- every picked row is the row of the key, and that one occurs once
        classical
        have one : t.count picked = t.rows.count r := by
          refine List.countP_congr fun s hs => ?_
          constructor
          · intro h
            simp [only s hs h]
          · intro h
            have same : s = r := by simpa using h
            rwa [same]
        rw [one, List.count_eq_one_of_mem (List.Nodup.of_map _ t.nodup) hr]
        simp [hp]
      · have zero : t.count picked = 0 := by
          rw [count, List.countP_eq_zero]
          intro s hs hps
          exact hp (only s hs hps ▸ hps)
        simpa [hp] using zero

section

variable {picked : Row δ → Bool} {k : String} (hk : ∀ r, picked r → r.key = k)

include hk

/-- A change of one key's row leaves the rows of all other keys alone. -/
theorem row?_modify_of_ne (t : Table δ) (token : Row δ → String) (d : δ) {k' : String}
    (hne : k' ≠ k) : (t.modify picked token d).row? k' = t.row? k' := by
  rw [row?_modify]
  cases hrow : t.row? k' with
  | none => rfl
  | some r =>
      have unpicked : ¬ picked r := fun hp => hne ((key_of_row? hrow).symm.trans (hk r hp))
      simp [unpicked]

/-- A deletion of one key's row leaves the rows of all other keys alone. -/
theorem row?_erase_of_ne (t : Table δ) {k' : String} (hne : k' ≠ k) :
    (t.erase picked).row? k' = t.row? k' := by
  rw [row?_erase]
  cases hrow : t.row? k' with
  | none => rfl
  | some r =>
      have unpicked : ¬ picked r := fun hp => hne ((key_of_row? hrow).symm.trans (hk r hp))
      simp [Option.filter, unpicked]

end

end LeaseLock.Table
