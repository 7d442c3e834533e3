/-
# LeaseLock.Proofs.DurationText -- a duration can be told from its text

The text of a duration names a unit that depends on the duration, and leaves out the zeros at the end
of its fraction. Nothing is lost by that: digits and a point end where the unit begins, the unit says how
many places the fraction had, and only zeros fill it up again. So no two durations have the same text
(`Duration.text_inj`).
-/
import LeaseLock.Duration
import LeaseLock.Proofs.Numeral
import Mathlib

namespace LeaseLock.Duration

open Numeral

/-! ## Fractions -/

/-- The decimal places that are written: all of them but the zeros at their end. -/
def fraction (n places : Nat) : List Char := (padded 10 places n).rdropWhile (· == '0')

/-- A fraction behind its point, or nothing where there is none. -/
def pointed : List Char → List Char
  | [] => []
  | c :: cs => '.' :: c :: cs

theorem decimalText_eq (n places : Nat) :
    decimalText n places = digits 10 (n / 10 ^ places) ++ pointed (fraction n places) := by
  show (if (fraction n places).isEmpty then digits 10 (n / 10 ^ places)
    else digits 10 (n / 10 ^ places) ++ '.' :: fraction n places) = _
  cases fraction n places <;> simp [pointed]

theorem isDigitOf_of_mem_fraction {n places : Nat} {c : Char} (h : c ∈ fraction n places) :
    IsDigitOf 10 c :=
  isDigitOf_of_mem_padded (by decide) ((List.rdropWhile_prefix _ _).mem h)

/-- Zeros fill a fraction up to all of its places. -/
theorem fraction_append (n places : Nat) :
    fraction n places ++ List.replicate (places - (fraction n places).length) '0' =
      padded 10 places n := by
  have whole : fraction n places ++ (padded 10 places n).rtakeWhile (· == '0') = padded 10 places n :=
    List.rdropWhile_append_rtakeWhile
  have zeros : (padded 10 places n).rtakeWhile (· == '0') =
      List.replicate (places - (fraction n places).length) '0' := by
    rw [List.eq_replicate_iff]
    constructor
    -- the places are as many as ever, so those that are left out can be counted
    · have length := congrArg List.length whole
      rw [List.length_append, length_padded] at length
      omega
    · intro c hc
      simpa using List.mem_rtakeWhile_imp hc
  rw [← zeros, whole]

theorem fraction_inj {n m places : Nat} :
    fraction n places = fraction m places ↔ n % 10 ^ places = m % 10 ^ places := by
  rw [← padded_inj (by decide) (by decide)]
  constructor
  · intro h
    rw [← fraction_append n, ← fraction_append m, h]
  · intro h
    rw [fraction, fraction, h]

/-! ## Units -/

/-- The units: how many decimal places of them one nanosecond takes, and what they are written as. -/
def units : List (Nat × List Char) := [(9, ['s']), (6, ['m', 's']), (3, ['µ', 's']), (0, ['n', 's'])]

theorem exists_unit (d : Duration) :
    ∃ u ∈ units, d.text.toList = decimalText d.nanos u.1 ++ u.2 := by
  rw [text, String.toList_ofList]
  split
  · exact ⟨(9, ['s']), by decide, rfl⟩
  · split
    · exact ⟨(6, ['m', 's']), by decide, rfl⟩
    · split
      · exact ⟨(3, ['µ', 's']), by decide, rfl⟩
      · exact ⟨(0, ['n', 's']), by decide, rfl⟩

/-- A unit begins with a letter, by which it is told apart from what may stand before it. -/
theorem unit_opens {u : Nat × List Char} (h : u ∈ units) :
    ∃ c cs, u.2 = c :: cs ∧ ¬ IsDigitOf 10 c ∧ c ≠ '.' := by
  simp only [units, List.mem_cons, List.not_mem_nil, or_false] at h
  rcases h with rfl | rfl | rfl | rfl <;> exact ⟨_, _, rfl, by decide, by decide⟩

theorem unit_eq {u v : Nat × List Char} (hu : u ∈ units) (hv : v ∈ units) (h : u.2 = v.2) : u = v := by
  have told : ∀ u ∈ units, ∀ v ∈ units, u.2 = v.2 → u = v := by decide
  exact told u hu v hv h

section

variable {u v : Nat × List Char} (hu : u ∈ units) (hv : v ∈ units)

include hu in
/-- What follows the whole part begins with no digit. -/
theorem pointed_opens (cs : List Char) : ∃ x xs, pointed cs ++ u.2 = x :: xs ∧ ¬ IsDigitOf 10 x := by
  cases cs with
  | nil =>
    obtain ⟨c, cs, hu, letter, -⟩ := unit_opens hu
    exact ⟨c, cs, hu, letter⟩
  | cons c cs => exact ⟨'.', c :: cs ++ u.2, rfl, by decide⟩

include hu hv in
/-- A fraction and a unit behind it are told apart. -/
theorem pointed_append_inj {cs ds : List Char} (hcs : ∀ c ∈ cs, IsDigitOf 10 c)
    (hds : ∀ d ∈ ds, IsDigitOf 10 d) (h : pointed cs ++ u.2 = pointed ds ++ v.2) :
    cs = ds ∧ u = v := by
  obtain ⟨x, xs, hx, xdigit, xpoint⟩ := unit_opens hu
  obtain ⟨y, ys, hy, ydigit, ypoint⟩ := unit_opens hv
  -- a point or a unit's letter comes first, and tells whether there is a fraction
  cases cs with
  | nil =>
    cases ds with
    | nil => exact ⟨rfl, unit_eq hu hv h⟩
    | cons d ds =>
      rw [hx] at h
      exact absurd (List.cons.inj h).1 xpoint
  | cons c cs =>
    cases ds with
    | nil =>
      rw [hy] at h
      exact absurd (List.cons.inj h).1.symm ypoint
    | cons d ds =>
      have rest : c :: cs ++ u.2 = d :: ds ++ v.2 := (List.cons.inj h).2
      rw [hx, hy, run_append_inj hcs hds xdigit ydigit] at rest
      obtain ⟨hcs, rfl, rfl⟩ := rest
      exact ⟨hcs, unit_eq hu hv (hx.trans hy.symm)⟩

end

/-! ## Texts -/

/-- **The text of a duration tells the duration.** -/
theorem text_inj {d e : Duration} : d.text = e.text ↔ d = e := by
  refine ⟨fun h => ?_, congrArg text⟩
  obtain ⟨⟨places, unit⟩, hu, hd⟩ := d.exists_unit
  obtain ⟨⟨places', unit'⟩, hv, he⟩ := e.exists_unit
  obtain ⟨x, xs, hx, xdigit⟩ := pointed_opens hu (fraction d.nanos places)
  obtain ⟨y, ys, hy, ydigit⟩ := pointed_opens hv (fraction e.nanos places')
  have same : digits 10 (d.nanos / 10 ^ places) ++ (pointed (fraction d.nanos places) ++ unit) =
      digits 10 (e.nanos / 10 ^ places') ++ (pointed (fraction e.nanos places') ++ unit') := by
    rw [← List.append_assoc, ← List.append_assoc, ← decimalText_eq, ← decimalText_eq, ← hd, ← he,
      h]
  rw [hx, hy, digits_append_inj (by decide) (by decide) xdigit ydigit] at same
  obtain ⟨whole, rfl, rfl⟩ := same
  obtain ⟨fractions, units⟩ := pointed_append_inj hu hv (fun _ => isDigitOf_of_mem_fraction)
    (fun _ => isDigitOf_of_mem_fraction) (hx.trans hy.symm)
  -- only now both are known to have as many places
  obtain ⟨rfl, rfl⟩ := Prod.mk.inj units
  have rest : d.nanos % 10 ^ places = e.nanos % 10 ^ places := fraction_inj.mp fractions
  have nanos : d.nanos = e.nanos := by
    rw [← Nat.div_add_mod d.nanos (10 ^ places), whole, rest, Nat.div_add_mod]
  cases d
  cases e
  exact congrArg Duration.mk nanos

/-- The same digits in two units, and a fraction that keeps the zeros before its last digit. -/
example : (ofMillis 1500).text = "1.5s" ∧ (Duration.mk 1500000).text = "1.5ms" ∧
    (ofParts 1 10).text = "1.00000001s" := by decide +kernel

/-- The characters of a duration's text. -/
theorem mem_text {d : Duration} {c : Char} (h : c ∈ d.text.toList) :
    IsDigitOf 10 c ∨ c ∈ ['.', 's', 'm', 'µ', 'n'] := by
  have letters : ∀ u ∈ units, u.2 ⊆ ['.', 's', 'm', 'µ', 'n'] := by decide
  obtain ⟨u, hu, hd⟩ := d.exists_unit
  rw [hd, decimalText_eq, List.mem_append, List.mem_append] at h
  rcases h with (h | h) | h
  · exact .inl (isDigitOf_of_mem_digits (by decide) h)
  · cases hplaces : fraction d.nanos u.1 with
    | nil =>
      rw [hplaces] at h
      exact absurd h List.not_mem_nil
    | cons c cs =>
      rw [hplaces] at h
      rcases List.mem_cons.mp h with rfl | h
      · exact .inr (by decide)
      · exact .inl (isDigitOf_of_mem_fraction (hplaces ▸ h))
  · exact .inr (letters u hu h)

end LeaseLock.Duration
