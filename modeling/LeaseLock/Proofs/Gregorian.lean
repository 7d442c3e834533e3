/-
# LeaseLock.Proofs.Gregorian -- the dates are those of the Gregorian calendar

A calendar is known by its first day and by how one day follows another. From 1 January 1970 on, and
back from it, the dates of days follow each other as the Gregorian calendar has it: months of 30 and 31
days, a February of 28, and of 29 in every fourth year, except in those hundredth years that are no
four-hundredth ones (`Calendar.dateOfDay_succ`).
-/
import LeaseLock.Proofs.Calendar

namespace LeaseLock.Calendar

/-! ## The calendar -/

/-- A year with a leap day. -/
def IsLeap (year : Int) : Prop := 4 ∣ year ∧ (100 ∣ year → 400 ∣ year)

instance (year : Int) : Decidable (IsLeap year) := inferInstanceAs (Decidable (_ ∧ _))

/-- The days of a month. -/
def monthLength (year : Int) (month : Nat) : Nat :=
  if month = 2 then (if IsLeap year then 29 else 28)
  else if month = 4 ∨ month = 6 ∨ month = 9 ∨ month = 11 then 30 else 31

/-- **The date after a date.** -/
def Date.next (d : Date) : Date :=
  if d.day < monthLength d.year d.month then ⟨d.year, d.month, d.day + 1⟩
  else if d.month < 12 then ⟨d.year, d.month + 1, 1⟩
  else ⟨d.year + 1, 1, 1⟩

/-! ## Years that begin in March -/

/-- The days of a year that begins in March: its leap day is that of the year in which it ends. -/
def yearLength (year : Int) : Nat := if IsLeap (year + 1) then 366 else 365

theorem yearLength_cases (year : Int) : yearLength year = 365 ∨ yearLength year = 366 := by
  unfold yearLength
  split
  · exact .inr rfl
  · exact .inl rfl

/-- The calendar's number of a month that is counted from March, and its year. -/
def calendarMonth (month : Nat) : Nat := if month < 10 then month + 3 else month - 9

def calendarYear (year : Int) (month : Nat) : Int := year + (if month < 10 then 0 else 1)

theorem dateOfYear_eq {year : Int} {day month : Nat} (h : monthOfYear day = month) :
    dateOfYear year day =
      ⟨calendarYear year month, calendarMonth month, day - startOfMonth month + 1⟩ := by
  rw [← h]
  rfl

/-- A day belongs to the month within whose days it lies. -/
theorem monthOfYear_eq {day month : Nat} (first : startOfMonth month ≤ day)
    (last : day < startOfMonth (month + 1)) : monthOfYear day = month := by
  unfold startOfMonth at first last
  unfold monthOfYear
  omega

/-- The months follow each other in their lengths. -/
theorem startOfMonth_succ (year : Int) {month : Nat} (h : month < 11) :
    startOfMonth (month + 1) = startOfMonth month + monthLength year (calendarMonth month) := by
  interval_cases month <;> rfl

/-- The year ends with its February. -/
theorem yearLength_eq (year : Int) :
    yearLength year = startOfMonth 11 + monthLength (calendarYear year 11) (calendarMonth 11) := by
  show (if IsLeap (year + 1) then 366 else 365) = 337 + if IsLeap (year + 1) then 29 else 28
  split <;> rfl

/-- Within a year that begins in March, the next day has the next date. -/
theorem dateOfYear_succ {year : Int} {day : Nat} (h : day + 1 < yearLength year) :
    dateOfYear year (day + 1) = (dateOfYear year day).next := by
  have few := yearLength_cases year
  obtain ⟨month, hmonth⟩ : ∃ month, monthOfYear day = month := ⟨_, rfl⟩
  obtain ⟨hm, hstart, -⟩ := monthOfYear_spec (show day ≤ 365 by omega)
  rw [hmonth] at hm hstart
  have within : day < startOfMonth (month + 1) := by
    rw [← hmonth]
    unfold startOfMonth monthOfYear
    omega
  have ends : month = 11 → yearLength year = startOfMonth month +
      monthLength (calendarYear year month) (calendarMonth month) := by
    rintro rfl
    exact yearLength_eq year
  have follows : month < 11 → startOfMonth (month + 1) = startOfMonth month +
      monthLength (calendarYear year month) (calendarMonth month) := startOfMonth_succ _
  have beyond : month = 11 → startOfMonth (month + 1) = 367 := by
    rintro rfl
    rfl
  rw [dateOfYear_eq hmonth, Date.next]
  dsimp only
  by_cases same : day + 1 < startOfMonth (month + 1)
  · rw [dateOfYear_eq (monthOfYear_eq (by omega) same), if_pos (by omega)]
    congr 1
    omega
  · -- the month is over, and it is not the last one of the year
    have next : monthOfYear (day + 1) = month + 1 := by
      apply monthOfYear_eq (by omega)
      unfold startOfMonth at within ⊢
      omega
    rw [dateOfYear_eq next, if_neg (by omega)]
    have first : day + 1 - startOfMonth (month + 1) + 1 = 1 := by omega
    rw [first]
    unfold calendarMonth calendarYear
    interval_cases month <;> simp

/-- The last day of such a year comes before the first of March. -/
theorem dateOfYear_last {year : Int} {day : Nat} (h : day + 1 = yearLength year) :
    dateOfYear (year + 1) 0 = (dateOfYear year day).next := by
  have few := yearLength_cases year
  have month : monthOfYear day = 11 := by
    unfold monthOfYear
    omega
  have ends := yearLength_eq year
  have february : startOfMonth 11 = 337 := rfl
  rw [dateOfYear_eq month, Date.next]
  dsimp only
  rw [if_neg (by omega)]
  show (⟨year + 1 + 0, 3, 1⟩ : Date) = ⟨year + 1, 3, 1⟩
  rw [add_zero]

/-! ## Days of an era -/

theorem startOfYear_succ {era : Int} {year : Nat} (h : year < 399) :
    startOfYear (year + 1) = startOfYear year + yearLength (400 * era + year) := by
  unfold startOfYear yearLength
  split
  · rename_i leap
    unfold IsLeap at leap
    omega
  · rename_i common
    unfold IsLeap at common
    omega

theorem startOfYear_last {era : Int} :
    startOfYear 399 + yearLength (400 * era + (399 : Nat)) = eraDays := by
  have leap : IsLeap (400 * era + (399 : Nat) + 1) := by
    unfold IsLeap
    omega
  rw [yearLength, if_pos leap]
  rfl

/-- A day belongs to the year of its era within whose days it lies. -/
theorem yearOfEra_eq {day year : Nat} (h : day < eraDays) (hyear : year ≤ 399)
    (first : startOfYear year ≤ day) (last : year < 399 → day < startOfYear (year + 1)) :
    yearOfEra day = year := by
  obtain ⟨hyear', first', -, last'⟩ := yearOfEra_spec h
  apply le_antisymm
  · by_contra later
    rw [not_le] at later
    have starts : startOfYear (year + 1) ≤ startOfYear (yearOfEra day) := startOfYear_le later
    have := last (by omega)
    omega
  · by_contra earlier
    rw [not_le] at earlier
    have starts : startOfYear (yearOfEra day + 1) ≤ startOfYear year := startOfYear_le earlier
    have := last' (by omega)
    omega

/-- The date of a day of an era. -/
theorem dateOfDay_eq {z era : Int} {day : Nat} (h : z + 719468 = 146097 * era + day)
    (hday : day < eraDays) : dateOfDay z =
      dateOfYear (400 * era + yearOfEra day) (day - startOfYear (yearOfEra day)) := by
  have bound : day < 146097 := hday
  have hera : (z + 719468) / (eraDays : Int) = era := by
    show (z + 719468) / 146097 = era
    omega
  have hrest : ((z + 719468) % (eraDays : Int)).toNat = day := by
    show ((z + 719468) % 146097).toNat = day
    omega
  rw [← hera, ← hrest]
  rfl

/-! ## The law of the calendar -/

/-- **The next day has the next date.** -/
theorem dateOfDay_succ (z : Int) : dateOfDay (z + 1) = (dateOfDay z).next := by
  obtain ⟨era, hera⟩ : ∃ era, era = (z + 719468) / 146097 := ⟨_, rfl⟩
  obtain ⟨day, hday⟩ : ∃ day, day = ((z + 719468) % 146097).toNat := ⟨_, rfl⟩
  have split : z + 719468 = 146097 * era + day := by omega
  have bound : day < 146097 := by omega
  obtain ⟨hyear, first, -, last⟩ := yearOfEra_spec (show day < eraDays from bound)
  rw [dateOfDay_eq split bound]
  obtain ⟨year, hyears⟩ : ∃ year, yearOfEra day = year := ⟨_, rfl⟩
  rw [hyears] at hyear first last ⊢
  have length := yearLength_cases (400 * era + year)
  by_cases ended : day + 1 = 146097
  · -- the era ends with its last year
    obtain rfl : day = 146096 := by omega
    obtain rfl : year = 399 := hyears.symm.trans rfl
    have next : z + 1 + 719468 = 146097 * (era + 1) + (0 : Nat) := by omega
    have ends : 145731 + yearLength (400 * era + (399 : Nat)) = 146097 := startOfYear_last
    have final : 146096 - startOfYear 399 + 1 = yearLength (400 * era + (399 : Nat)) := by
      show 146096 - 145731 + 1 = _
      omega
    rw [dateOfDay_eq next (by decide), ← dateOfYear_last final]
    show dateOfYear (400 * (era + 1) + 0) 0 = _
    congr 1
    omega
  · have next : z + 1 + 719468 = 146097 * era + (day + 1 : Nat) := by omega
    rw [dateOfDay_eq next (show day + 1 < 146097 by omega)]
    have follows : year < 399 → startOfYear (year + 1) = startOfYear year +
        yearLength (400 * era + year) := startOfYear_succ
    have lasts : year = 399 → startOfYear year + yearLength (400 * era + year) = 146097 := by
      rintro rfl
      exact startOfYear_last
    by_cases same : day + 1 - startOfYear year < yearLength (400 * era + year)
    · have stays : yearOfEra (day + 1) = year :=
        yearOfEra_eq (show day + 1 < 146097 by omega) hyear (by omega) (by omega)
      have counted : day + 1 - startOfYear year = day - startOfYear year + 1 := by omega
      rw [stays, counted]
      exact dateOfYear_succ (by omega)
    · have after : year + 1 < 399 → startOfYear (year + 1 + 1) = startOfYear (year + 1) +
          yearLength (400 * era + (year + 1 : Nat)) := startOfYear_succ
      have length' := yearLength_cases (400 * era + (year + 1 : Nat))
      have turns : yearOfEra (day + 1) = year + 1 :=
        yearOfEra_eq (show day + 1 < 146097 by omega) (by omega) (by omega) (by omega)
      have counted : day + 1 - startOfYear (year + 1) = 0 := by omega
      rw [turns, counted, ← dateOfYear_last (by omega)]
      congr 1
      omega

/-- **The dates are those of the Gregorian calendar**: they begin where Unix time begins, and go on day
by day. -/
theorem dateOfDay_gregorian :
    dateOfDay 0 = ⟨1970, 1, 1⟩ ∧ ∀ z, dateOfDay (z + 1) = (dateOfDay z).next :=
  ⟨by decide, dateOfDay_succ⟩

end LeaseLock.Calendar
