/-
# LeaseLock.Proofs.Calendar -- texts that sort like instants

Deadlines are kept as text, and compared as text. That is right because every field of a timestamp
has its fixed width from the year 0000 to the year 9999, and because a later day has a later date:
first by year, then by month, then by day. The dates are those of the proleptic Gregorian calendar,
found in years that begin in March, so the proof runs over such years, too, and comes back to the
year's own beginning at the end (`Calendar.dateOfDay_before`, `Calendar.timestamp_lt`).
-/
import LeaseLock.Sqlite.Calendar
import LeaseLock.Proofs.Numeral
import Mathlib.Data.String.Basic
import Mathlib.Tactic.IntervalCases

namespace LeaseLock

/-! ## Fields of fixed width -/

/-- Texts are compared by what stands first in them. -/
theorem append_lt_append {a b : List Char} (hlen : a.length = b.length) (h : a < b) (c d : List Char) :
    a ++ c < b ++ d := by
  induction a generalizing b with
  | nil =>
      obtain rfl := List.length_eq_zero_iff.mp hlen.symm
      exact absurd h (lt_irrefl _)
  | cons x a ih =>
      cases b with
      | nil => exact absurd hlen (by simp)
      | cons y b =>
          rw [List.cons_append, List.cons_append, List.cons_lt_cons_iff]
          rcases List.cons_lt_cons_iff.mp h with hxy | ⟨rfl, hab⟩
          · exact Or.inl hxy
          · exact Or.inr ⟨rfl, ih (Nat.succ.inj hlen) hab⟩

namespace Numeral

theorem digit_lt {a b : Nat} (h : a < b) (hb : b < 10) : digit a < digit b := by
  interval_cases b <;> interval_cases a <;> decide

/-- **Padded numerals sort like numbers.** -/
theorem padded_lt {width n m : Nat} (h : n < m) (hm : m < 10 ^ width) :
    padded 10 width n < padded 10 width m := by
  induction width generalizing n m with
  | zero => exact absurd hm (by omega)
  | succ width ih =>
      show padded 10 width (n / 10) ++ [digit (n % 10)] < padded 10 width (m / 10) ++ [digit (m % 10)]
      rw [Nat.pow_succ] at hm
      by_cases hsame : n / 10 = m / 10
      · rw [hsame]
        apply List.append_left_lt
        rw [List.cons_lt_cons_iff]
        exact Or.inl (digit_lt (by omega) (by omega))
      · apply append_lt_append
        · rw [length_padded, length_padded]
        · exact ih (by omega) (by omega)

/-- A numeral without leading zeros is padded to its own width. -/
theorem padded_digits (n : Nat) : padded 10 (digits 10 n).length n = digits 10 n := by
  induction n using Nat.strong_induction_on with
  | _ n ih =>
      rw [digits]
      split
      · rename_i hn
        rw [List.length_append, List.length_singleton]
        show padded 10 _ (n / 10) ++ [digit (n % 10)] = _
        rw [ih (n / 10) (by omega)]
      · rename_i hn
        show [] ++ [digit (n % 10)] = [digit n]
        rw [Nat.mod_eq_of_lt (by omega)]
        rfl

theorem length_digits_le {n width : Nat} (h : n < 10 ^ (width + 1)) :
    (digits 10 n).length ≤ width + 1 := by
  induction width generalizing n with
  | zero =>
      rw [digits, if_neg (by omega)]
      exact le_refl _
  | succ width ih =>
      rw [digits]
      split
      · rw [List.length_append, List.length_singleton]
        have := ih (n := n / 10) (by rw [Nat.pow_succ] at h; omega)
        omega
      · simp

/-- A field decides, or what follows it does. -/
theorem padded_append_lt {width n m : Nat} {c d : List Char}
    (h : n < m ∧ m < 10 ^ width ∨ n = m ∧ c < d) :
    padded 10 width n ++ c < padded 10 width m ++ d := by
  rcases h with ⟨hlt, hm⟩ | ⟨rfl, hrest⟩
  · apply append_lt_append
    · rw [length_padded, length_padded]
    · exact padded_lt hlt hm
  · exact List.append_left_lt hrest

end Numeral

namespace Calendar

/-! ## Dates of days -/

/-- One date comes before another: by year, then by month, then by day. -/
def Date.Before (a b : Date) : Prop :=
  a.year < b.year ∨ a.year = b.year ∧ (a.month < b.month ∨ a.month = b.month ∧ a.day < b.day)

/-- **The year of a day** of an era: the day lies between the first day of its year and that of the
next one. The era's last day is one that no next year follows. -/
theorem yearOfEra_spec {day : Nat} (h : day < eraDays) :
    yearOfEra day ≤ 399 ∧ startOfYear (yearOfEra day) ≤ day ∧ day ≤ startOfYear (yearOfEra day) + 365 ∧
      (yearOfEra day < 399 → day < startOfYear (yearOfEra day + 1)) := by
  have bound : day < 146097 := h
  by_cases hlast : day = 146096
  · subst hlast
    decide
  -- the day lies in one of four centuries, and `leap` counts leap days as if every fourth year had one
  obtain ⟨century, hcentury⟩ : ∃ c, c = day / 36524 := ⟨_, rfl⟩
  obtain ⟨leap, hleap⟩ : ∃ n, n = day / 1460 := ⟨_, rfl⟩
  obtain ⟨year, hyear⟩ : ∃ y, y = yearOfEra day := ⟨_, rfl⟩
  have hdef : year = (day - leap + century) / 365 := by
    rw [hyear, yearOfEra, ← hleap, ← hcentury]
    omega
  rw [← hyear]
  unfold startOfYear
  have few : century < 4 := by omega
  have first : 100 * century ≤ year := by interval_cases century <;> omega
  have last : year ≤ 100 * century + 99 := by interval_cases century <;> omega
  have hundreds : year / 100 = century := by omega
  refine ⟨by omega, ?_, ?_, ?_⟩
  · interval_cases century <;> omega
  · interval_cases century <;> omega
  · intro hnext
    by_contra hover
    rw [not_lt] at hover
    obtain ⟨fours, hfours⟩ : ∃ w, w = (year + 1) / 4 := ⟨_, rfl⟩
    by_cases hturn : (year + 1) / 100 = century
    · -- a year too long would take a leap day too many
      have more : fours + 1 ≤ leap := by omega
      omega
    · have turn : year + 1 = 100 * (century + 1) := by omega
      omega

theorem startOfYear_le {a b : Nat} (h : a ≤ b) : startOfYear a ≤ startOfYear b := by
  apply monotone_nat_of_le_succ _ h
  intro year
  unfold startOfYear
  omega

/-- The month of a day, in a year that begins in March, and the day of the month. -/
theorem monthOfYear_spec {day : Nat} (h : day ≤ 365) :
    monthOfYear day ≤ 11 ∧ startOfMonth (monthOfYear day) ≤ day ∧
      day < startOfMonth (monthOfYear day) + 31 := by
  unfold monthOfYear startOfMonth
  omega

/-- The date of a day of a year that begins in March. -/
def dateOfYear (year : Int) (day : Nat) : Date :=
  let month := monthOfYear day
  { year := year + (if month < 10 then 0 else 1)
    month := if month < 10 then month + 3 else month - 9
    day := day - startOfMonth month + 1 }

/-- Within years that begin in March, and from one such year to the next, dates follow each other. -/
theorem dateOfYear_before {year year' : Int} {day day' : Nat} (hday : day ≤ 365) (hday' : day' ≤ 365)
    (h : year < year' ∨ year = year' ∧ day < day') :
    (dateOfYear year day).Before (dateOfYear year' day') := by
  obtain ⟨hm, hstart, -⟩ := monthOfYear_spec hday
  obtain ⟨hm', hstart', -⟩ := monthOfYear_spec hday'
  have months : day ≤ day' → monthOfYear day ≤ monthOfYear day' := by
    unfold monthOfYear
    omega
  unfold dateOfYear Date.Before
  dsimp only
  split <;> split <;> grind

/-- **A later day has a later date.** -/
theorem dateOfDay_before {z z' : Int} (h : z < z') : (dateOfDay z).Before (dateOfDay z') := by
  let era : Int := (z + 719468) / 146097
  let era' : Int := (z' + 719468) / 146097
  let day : Nat := ((z + 719468) % 146097).toNat
  let day' : Nat := ((z' + 719468) % 146097).toNat
  have hday : day < eraDays := by
    show day < 146097
    omega
  have hday' : day' < eraDays := by
    show day' < 146097
    omega
  obtain ⟨hyear, hstart, hlength, -⟩ := yearOfEra_spec hday
  obtain ⟨hyear', hstart', hlength', hnext'⟩ := yearOfEra_spec hday'
  show (dateOfYear (400 * era + yearOfEra day) (day - startOfYear (yearOfEra day))).Before
    (dateOfYear (400 * era' + yearOfEra day') (day' - startOfYear (yearOfEra day')))
  apply dateOfYear_before (by omega) (by omega)
  by_cases hsame : era = era'
  · have hlt : day < day' := by omega
    -- no day of an era lies in an earlier year than the days before it
    have years : yearOfEra day ≤ yearOfEra day' := by
      by_contra hback
      rw [not_le] at hback
      have next : day' < startOfYear (yearOfEra day' + 1) := hnext' (by omega)
      have starts : startOfYear (yearOfEra day' + 1) ≤ startOfYear (yearOfEra day) := startOfYear_le hback
      omega
    by_cases hyears : yearOfEra day = yearOfEra day'
    · rw [hyears] at hstart ⊢
      omega
    · omega
  · have later : era < era' := by omega
    omega

/-! ## Texts of instants -/

/-- A year of at most four digits is written with four. -/
theorem yearText_eq {year : Int} (hfirst : 0 ≤ year) (hlast : year ≤ 9999) :
    yearText year = Numeral.padded 10 4 year.natAbs := by
  have short : (Numeral.digits 10 year.natAbs).length ≤ 4 := Numeral.length_digits_le (by omega)
  rw [yearText, if_neg (by omega)]
  dsimp only
  split
  · rfl
  · have four : (Numeral.digits 10 year.natAbs).length = 4 := by omega
    rw [← Numeral.padded_digits, four]

/-- A date with fields of the usual width. -/
structure Date.Fits (d : Date) : Prop where
  year : 0 ≤ d.year ∧ d.year ≤ 9999
  month : d.month < 100
  day : d.day < 100

/-- **Texts of dates sort like the dates**, whatever follows them. -/
theorem Date.text_lt {a b : Date} (ha : a.Fits) (hb : b.Fits) {c d : List Char}
    (h : a.Before b ∨ a = b ∧ c < d) : a.text ++ c < b.text ++ d := by
  have hay := ha.year
  have hby := hb.year
  have hbm := hb.month
  have hbd := hb.day
  unfold Date.text
  rw [yearText_eq hay.1 hay.2, yearText_eq hby.1 hby.2]
  simp only [List.append_assoc, List.cons_append]
  apply Numeral.padded_append_lt
  rcases h with (hyear | ⟨hyear, hmonth | ⟨hmonth, hday⟩⟩) | ⟨rfl, hrest⟩
  · exact Or.inl ⟨by omega, by omega⟩
  · refine Or.inr ⟨by rw [hyear], List.cons_lt_cons_iff.mpr (Or.inr ⟨rfl, ?_⟩)⟩
    exact Numeral.padded_append_lt (Or.inl ⟨hmonth, hbm⟩)
  · refine Or.inr ⟨by rw [hyear], List.cons_lt_cons_iff.mpr (Or.inr ⟨rfl, ?_⟩)⟩
    refine Numeral.padded_append_lt (Or.inr ⟨hmonth, List.cons_lt_cons_iff.mpr (Or.inr ⟨rfl, ?_⟩)⟩)
    exact Numeral.padded_append_lt (Or.inl ⟨hday, hbd⟩)
  · refine Or.inr ⟨rfl, List.cons_lt_cons_iff.mpr (Or.inr ⟨rfl, ?_⟩)⟩
    refine Numeral.padded_append_lt (Or.inr ⟨rfl, List.cons_lt_cons_iff.mpr (Or.inr ⟨rfl, ?_⟩)⟩)
    exact Numeral.padded_append_lt (Or.inr ⟨rfl, hrest⟩)

/-- Texts of times of day sort like the times. -/
theorem timeText_lt {ms ms' : Nat} (h : ms < ms') (hms' : ms' < 86400000) :
    timeText ms < timeText ms' := by
  unfold timeText
  simp only [List.append_assoc, List.cons_append]
  apply Numeral.padded_append_lt
  by_cases hhour : ms / 3600000 = ms' / 3600000
  swap
  · exact Or.inl ⟨by omega, by omega⟩
  refine Or.inr ⟨hhour, List.cons_lt_cons_iff.mpr (Or.inr ⟨rfl, Numeral.padded_append_lt ?_⟩)⟩
  by_cases hminute : ms / 60000 % 60 = ms' / 60000 % 60
  swap
  · exact Or.inl ⟨by omega, by omega⟩
  refine Or.inr ⟨hminute, List.cons_lt_cons_iff.mpr (Or.inr ⟨rfl, Numeral.padded_append_lt ?_⟩)⟩
  by_cases hsecond : ms / 1000 % 60 = ms' / 1000 % 60
  swap
  · exact Or.inl ⟨by omega, by omega⟩
  refine Or.inr ⟨hsecond, List.cons_lt_cons_iff.mpr (Or.inr ⟨rfl, ?_⟩)⟩
  exact Numeral.padded_lt (by omega) (by omega)

/-- The first instant of the year 0000. -/
def beginning : Int := -62167219200000

/-- The instant after the year 9999. -/
def ending : Int := 253402300800000

/-- Every date has a month and a day of at most two digits. -/
theorem dateOfDay_short (z : Int) : (dateOfDay z).month < 100 ∧ (dateOfDay z).day < 100 := by
  let day : Nat := ((z + 719468) % 146097).toNat
  have hday : day < eraDays := by
    show day < 146097
    omega
  obtain ⟨-, -, hlength, -⟩ := yearOfEra_spec hday
  have hlength : day - startOfYear (yearOfEra day) ≤ 365 := by omega
  obtain ⟨hmonth, -, hdays⟩ := monthOfYear_spec hlength
  show (dateOfYear _ (day - startOfYear (yearOfEra day))).month < 100 ∧
    (dateOfYear _ (day - startOfYear (yearOfEra day))).day < 100
  unfold dateOfYear
  dsimp only
  constructor
  · split <;> omega
  · omega

/-- From the year 0000 to the year 9999 dates fit their fields. -/
theorem dateOfDay_fits {z : Int} (hfirst : -719528 ≤ z) (hlast : z ≤ 2932896) : (dateOfDay z).Fits := by
  obtain ⟨hmonth, hday⟩ := dateOfDay_short z
  refine ⟨⟨?_, ?_⟩, hmonth, hday⟩
  · have first : dateOfDay (-719528) = ⟨0, 1, 1⟩ := by decide
    rcases hfirst.eq_or_lt with rfl | hlt
    · rw [first]
    · rcases first ▸ dateOfDay_before hlt with hyear | ⟨hyear, -⟩
      · exact hyear.le
      · exact hyear.le
  · have last : dateOfDay 2932896 = ⟨9999, 12, 31⟩ := by decide
    rcases hlast.eq_or_lt with rfl | hlt
    · rw [last]
    · rcases last ▸ dateOfDay_before hlt with hyear | ⟨hyear, -⟩
      · exact hyear.le
      · exact hyear.le

/-- **Texts of instants sort like the instants**, from the year 0000 to the year 9999. -/
theorem timestamp_lt {ms ms' : Int} (hfirst : beginning ≤ ms) (h : ms < ms') (hlast : ms' < ending) :
    timestamp ms < timestamp ms' := by
  unfold beginning at hfirst
  unfold ending at hlast
  rw [String.lt_iff_toList_lt]
  simp only [timestamp, String.toList_ofList, dayMillis]
  have fits := dateOfDay_fits (z := ms / 86400000) (by omega) (by omega)
  have fits' := dateOfDay_fits (z := ms' / 86400000) (by omega) (by omega)
  apply Date.text_lt fits fits'
  by_cases hday : ms / 86400000 = ms' / 86400000
  · refine Or.inr ⟨by rw [hday], List.cons_lt_cons_iff.mpr (Or.inr ⟨rfl, ?_⟩)⟩
    exact timeText_lt (by omega) (by omega)
  · exact Or.inl (dateOfDay_before (by omega))

end Calendar

end LeaseLock
