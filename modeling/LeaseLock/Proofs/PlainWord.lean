/-
# LeaseLock.Proofs.PlainWord -- which names are accepted for a table

The check of a table's name looks at its characters and at the number of its bytes. Every character
that it lets pass takes one byte, so the limit is one of characters, too, and the names that pass are
the plain words (`TableName.check_eq_ok_iff`).
-/
import LeaseLock.TableName
import Mathlib

namespace LeaseLock

/-- An ASCII letter. -/
def IsLetter (c : Char) : Prop := 'a' ≤ c ∧ c ≤ 'z' ∨ 'A' ≤ c ∧ c ≤ 'Z'

/-- An ASCII digit. -/
def IsDigit (c : Char) : Prop := '0' ≤ c ∧ c ≤ '9'

/-- **Plain word**: an ASCII letter or an underscore, and at most 63 ASCII letters, digits and
underscores behind it. -/
def IsPlainWord (name : List Char) : Prop :=
  ∃ first rest, name = first :: rest ∧ (IsLetter first ∨ first = '_') ∧ rest.length ≤ 63 ∧
    ∀ c ∈ rest, IsLetter c ∨ IsDigit c ∨ c = '_'

theorem isAlpha_iff (c : Char) : c.isAlpha ↔ IsLetter c := by
  rw [Char.isAlpha, Bool.or_eq_true, or_comm]
  simp [Char.isUpper, Char.isLower, IsLetter, Char.le_def]

theorem isDigit_iff (c : Char) : c.isDigit ↔ IsDigit c := by
  simp [Char.isDigit, IsDigit, Char.le_def]

namespace TableName

theorem isOpening_iff (c : Char) : isOpening c ↔ IsLetter c ∨ c = '_' := by
  simp [isOpening, isAlpha_iff]

theorem isFollowing_iff (c : Char) : isFollowing c ↔ IsLetter c ∨ IsDigit c ∨ c = '_' := by
  simp [isFollowing, Char.isAlphanum, isAlpha_iff, isDigit_iff, or_assoc]

theorem utf8Size_of_isFollowing {c : Char} (h : isFollowing c) : c.utf8Size = 1 := by
  have below : c ≤ 'z' := by
    rcases (isFollowing_iff c).mp h with (⟨-, hc⟩ | ⟨-, hc⟩) | ⟨-, hc⟩ | rfl
    · exact hc
    · exact Char.le_trans hc (by decide)
    · exact Char.le_trans hc (by decide)
    · decide
  rw [Char.utf8Size_eq_one_iff]
  exact UInt32.le_trans below (by decide)

theorem isFollowing_of_isOpening {c : Char} (h : isOpening c) : isFollowing c := by
  rw [isFollowing_iff]
  rcases (isOpening_iff c).mp h with hc | hc
  · exact .inl hc
  · exact .inr (.inr hc)

/-- Such characters take a byte each. -/
theorem utf8ByteSize_of_isFollowing {cs : List Char} (h : ∀ c ∈ cs, isFollowing c) :
    (String.ofList cs).utf8ByteSize = cs.length := by
  induction cs with
  | nil => rfl
  | cons c cs ih =>
    rw [List.forall_mem_cons] at h
    rw [String.ofList_cons, String.utf8ByteSize_append, String.utf8ByteSize_singleton,
      utf8Size_of_isFollowing h.1, ih h.2, List.length_cons, Nat.add_comm]

/-- **Plain words are accepted**, and nothing else. -/
theorem isPlain_iff (name : String) : isPlain name ↔ IsPlainWord name.toList := by
  have bytes : ∀ {first : Char} {rest : List Char}, name.toList = first :: rest →
      isOpening first → (∀ c ∈ rest, isFollowing c) → name.utf8ByteSize = rest.length + 1 := by
    intro first rest hname hfirst hrest
    rw [← String.ofList_toList (s := name), hname, utf8ByteSize_of_isFollowing, List.length_cons]
    exact List.forall_mem_cons.mpr ⟨isFollowing_of_isOpening hfirst, hrest⟩
  unfold isPlain
  cases hname : name.toList with
  | nil => simp [IsPlainWord]
  | cons first rest =>
    simp only [Bool.and_eq_true, List.all_eq_true, decide_eq_true_eq]
    constructor
    · rintro ⟨⟨hfirst, hrest⟩, hsize⟩
      rw [bytes hname hfirst hrest, maxTableNameLength] at hsize
      exact ⟨first, rest, rfl, (isOpening_iff first).mp hfirst, by omega,
        fun c hc => (isFollowing_iff c).mp (hrest c hc)⟩
    · rintro ⟨_, _, heq, hfirst, hlong, hrest⟩
      obtain ⟨rfl, rfl⟩ := List.cons.inj heq
      have opening := (isOpening_iff first).mpr hfirst
      have following : ∀ c ∈ rest, isFollowing c := fun c hc => (isFollowing_iff c).mpr (hrest c hc)
      refine ⟨⟨opening, following⟩, ?_⟩
      rw [bytes hname opening following, maxTableNameLength]
      omega

theorem check_eq_ok_iff (name : String) : check name = .ok () ↔ IsPlainWord name.toList := by
  rw [← isPlain_iff, check]
  split <;> simp_all

end TableName

/-- The characters of a plain word may follow its first one. -/
theorem IsPlainWord.isFollowing {name : List Char} (h : IsPlainWord name) {c : Char} (hc : c ∈ name) :
    TableName.isFollowing c := by
  obtain ⟨first, rest, rfl, hfirst, -, hrest⟩ := h
  rcases List.mem_cons.mp hc with rfl | hc
  · exact TableName.isFollowing_of_isOpening ((TableName.isOpening_iff c).mpr hfirst)
  · exact (TableName.isFollowing_iff c).mpr (hrest c hc)

end LeaseLock
