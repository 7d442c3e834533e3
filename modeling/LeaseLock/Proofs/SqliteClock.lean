/-
# LeaseLock.Proofs.SqliteClock -- the clock of SQLite is a clock

Deployments take their clock as a parameter: it shows no earlier text after a later one, and where a
result needs it, no deadline lies before the instant that it is counted from (`Clock.Forward`) and a
whole tick leads past it (`Clock.Advances`). SQLite's texts are such a clock from the year 0 on.

The argument is one bound. A deadline goes through five roundings to 53 bits, each of which shifts it by
at most one part in `2 ^ 53`, so together by little more than a quarter of a millisecond of the 4.65e14
up to the end of time. A half is added before the floor, so the nearest millisecond is hit but for that
quarter (`Sqlite.le_instantOfDay`, `Sqlite.instantOfDay_le`). A lease of 0.76 milliseconds ends after now
(`Sqlite.grantsLive`), one of 0.24 does not (`Sqlite.not_grantsLive`), and which millisecond is the last
one that has a text is settled in the same way (`Sqlite.exists_deadlineText`).
-/
import LeaseLock.Proofs.Calendar
import LeaseLock.Proofs.Granting
import LeaseLock.Proofs.LateStatements
import LeaseLock.Proofs.Rounding
import LeaseLock.Sqlite.Clock

namespace LeaseLock.Sqlite

/-! ## Roundings -/

/-- What is left of a number, at least, after one rounding. -/
def kept : Rat := 1 - 1 / 2 ^ 53

theorem le_round {q p : Rat} (hq : 0 ≤ q) (h : q ≤ p) : kept * q ≤ Binary.round p := by
  have spec := (abs_le.mp (Binary.round_spec p)).1
  rw [abs_of_nonneg (hq.trans h)] at spec
  have shrunk : kept * q ≤ kept * p := mul_le_mul_of_nonneg_left h (by norm_num [kept])
  have spelled : kept * p = p - p / 2 ^ 53 := by
    unfold kept
    ring
  linarith

/-- What a number has grown to, at most, after one rounding. -/
def grown : Rat := 1 + 1 / 2 ^ 53

theorem round_le {p q : Rat} (hp : 0 ≤ p) (h : p ≤ q) : Binary.round p ≤ grown * q := by
  have spec := (abs_le.mp (Binary.round_spec p)).2
  rw [abs_of_nonneg hp] at spec
  have grows : grown * p ≤ grown * q := mul_le_mul_of_nonneg_left h (by norm_num [grown])
  have spelled : grown * p = p + p / 2 ^ 53 := by
    unfold grown
    ring
  linarith

theorem round_nonneg {p : Rat} (hp : 0 ≤ p) : 0 ≤ Binary.round p := by
  simpa using le_round (le_refl 0) hp

/-! ## Deadlines as numbers -/

theorem le_julianDayAfter {j micros : Int} (hj : 0 ≤ j) (hmicros : 0 ≤ micros) :
    kept ^ 3 * (j + micros / 1000 : Rat) ≤ julianDayAfter j micros * 86400000 := by
  have hj' : (0 : Rat) ≤ j := by exact_mod_cast hj
  have hm' : (0 : Rat) ≤ micros := by exact_mod_cast hmicros
  have hk : (0 : Rat) ≤ kept := by norm_num [kept]
  have hk1 : kept ≤ 1 := by norm_num [kept]
  have clockDay : kept * ((j : Rat) / 86400000) ≤ Binary.round (mkRat j 86400000) := by
    apply le_round (by positivity)
    rw [Rat.mkRat_eq_div]
    push_cast
    exact le_refl _
  have whole : kept * micros ≤ Binary.round micros := le_round hm' (le_refl _)
  have leaseDay : kept * (kept * micros / 86400000000) ≤
      Binary.round (Binary.round micros / 86400000000) :=
    le_round (by positivity) (div_le_div_of_nonneg_right whole (by norm_num))
  have less : kept ^ 2 * ((j : Rat) / 86400000) ≤ kept * ((j : Rat) / 86400000) := by
    rw [pow_two, mul_assoc]
    exact mul_le_of_le_one_left (by positivity) hk1
  have day : kept * (kept ^ 2 * ((j : Rat) / 86400000) + kept * (kept * micros / 86400000000)) ≤
      julianDayAfter j micros :=
    le_round (by positivity) (by linarith)
  linarith

theorem julianDayAfter_nonneg {j micros : Int} (hj : 0 ≤ j) (hmicros : 0 ≤ micros) :
    0 ≤ julianDayAfter j micros := by
  have hj' : (0 : Rat) ≤ j := by exact_mod_cast hj
  have hm' : (0 : Rat) ≤ micros := by exact_mod_cast hmicros
  have hk : (0 : Rat) ≤ kept := by norm_num [kept]
  exact nonneg_of_mul_nonneg_left (le_trans (by positivity) (le_julianDayAfter hj hmicros)) (by norm_num)

theorem julianDayAfter_le {j micros : Int} (hj : 0 ≤ j) (hmicros : 0 ≤ micros) :
    julianDayAfter j micros * 86400000 ≤ grown ^ 3 * (j + micros / 1000 : Rat) := by
  have hj' : (0 : Rat) ≤ j := by exact_mod_cast hj
  have hm' : (0 : Rat) ≤ micros := by exact_mod_cast hmicros
  have hg : (1 : Rat) ≤ grown := by norm_num [grown]
  have clockNonneg : (0 : Rat) ≤ mkRat j 86400000 := by
    rw [Rat.mkRat_eq_div]
    positivity
  have clockDay : Binary.round (mkRat j 86400000) ≤ grown * ((j : Rat) / 86400000) := by
    apply round_le clockNonneg
    rw [Rat.mkRat_eq_div]
    push_cast
    exact le_refl _
  have whole : Binary.round micros ≤ grown * micros := round_le hm' (le_refl _)
  have leaseNonneg : 0 ≤ Binary.round micros / 86400000000 := div_nonneg (round_nonneg hm') (by norm_num)
  have leaseDay : Binary.round (Binary.round micros / 86400000000) ≤
      grown * (grown * micros / 86400000000) :=
    round_le leaseNonneg (div_le_div_of_nonneg_right whole (by norm_num))
  have more : grown * ((j : Rat) / 86400000) ≤ grown ^ 2 * ((j : Rat) / 86400000) := by
    rw [pow_two, mul_assoc]
    exact le_mul_of_one_le_left (by positivity) hg
  have day : julianDayAfter j micros ≤
      grown * (grown ^ 2 * ((j : Rat) / 86400000) + grown * (grown * micros / 86400000000)) :=
    round_le (add_nonneg (round_nonneg clockNonneg) (round_nonneg leaseNonneg)) (by linarith)
  linarith

/-- The two roundings from a day to its milliseconds, with the half that is added in between. -/
theorem le_round_millis {day millis : Rat} (hmillis : 0 ≤ millis) (h : millis ≤ day * 86400000) :
    kept * (kept * millis + 1 / 2) ≤
      Binary.round (Binary.round (day * 86400000) + mkRat 1 2) := by
  have hk : (0 : Rat) ≤ kept := by norm_num [kept]
  have rounded : kept * millis ≤ Binary.round (day * 86400000) := le_round hmillis h
  apply le_round (by positivity)
  rw [Rat.mkRat_eq_div]
  push_cast
  linarith

theorem round_millis_le {day millis : Rat} (first : 0 ≤ day) (h : day * 86400000 ≤ millis) :
    Binary.round (Binary.round (day * 86400000) + mkRat 1 2) ≤
      grown * (grown * millis + 1 / 2) := by
  have nonneg : 0 ≤ day * 86400000 := by positivity
  have rounded : Binary.round (day * 86400000) ≤ grown * millis := round_le nonneg h
  rw [Rat.mkRat_eq_div]
  push_cast
  exact round_le (add_nonneg (round_nonneg nonneg) (by norm_num)) (by linarith)

/-- **A deadline is late enough**: it is no earlier than any millisecond up to 0.24 of one behind the end
of its time to live. -/
theorem le_instantOfDay {j micros m i : Int} (hj : 0 ≤ j) (hmicros : 0 ≤ micros)
    (hends : (m : Rat) ≤ j + micros / 1000 + 6 / 25) (hlast : m ≤ endOfTime)
    (hi : instantOfDay (julianDayAfter j micros) = some i) : m ≤ i := by
  unfold instantOfDay at hi
  split at hi
  · obtain rfl := Option.some.inj hi
    have hj' : (0 : Rat) ≤ j := by exact_mod_cast hj
    have hm' : (0 : Rat) ≤ micros := by exact_mod_cast hmicros
    have hlast' : (m : Rat) ≤ 464269060800000 := by exact_mod_cast hlast
    have hk : (0 : Rat) ≤ kept := by norm_num [kept]
    rw [Rat.le_floor_iff]
    refine le_trans ?_ (le_round_millis (by positivity) (le_julianDayAfter hj hmicros))
    -- five roundings and the 0.24 take less than the half that was added
    have lost : (1 - kept ^ 5) * m ≤ (1 - kept ^ 5) * 464269060800000 :=
      mul_le_mul_of_nonneg_left hlast' (by norm_num [kept])
    have few : (1 - kept ^ 5) * 464269060800000 + kept ^ 5 * (6 / 25) ≤ kept * (1 / 2) := by
      norm_num [kept]
    have left : kept ^ 5 * (m - 6 / 25) ≤ kept ^ 5 * (j + micros / 1000 : Rat) :=
      mul_le_mul_of_nonneg_left (by linarith) (by positivity)
    linarith
  · exact absurd hi (by simp)

/-- **A deadline is early enough**: it is no later than any millisecond from 0.24 of one before the end of
its time to live. -/
theorem instantOfDay_le {j micros m i : Int} (hj : 0 ≤ j) (hmicros : 0 ≤ micros)
    (hends : (j + micros / 1000 : Rat) ≤ m + 6 / 25) (hlast : m ≤ endOfTime)
    (hi : instantOfDay (julianDayAfter j micros) = some i) : i ≤ m := by
  unfold instantOfDay at hi
  split at hi
  · rename_i known
    obtain rfl := Option.some.inj hi
    have hlast' : (m : Rat) ≤ 464269060800000 := by exact_mod_cast hlast
    have hg : (0 : Rat) < grown := by norm_num [grown]
    rw [← Int.lt_add_one_iff, Rat.floor_lt_iff]
    refine lt_of_le_of_lt (round_millis_le known.1 (julianDayAfter_le hj hmicros)) ?_
    -- five roundings, the 0.24 and the half that was added make less than a millisecond
    have gained : (grown ^ 5 - 1) * m ≤ (grown ^ 5 - 1) * 464269060800000 :=
      mul_le_mul_of_nonneg_left hlast' (by norm_num [grown])
    have few : (grown ^ 5 - 1) * 464269060800000 + grown ^ 5 * (6 / 25) + grown * (1 / 2) < 1 := by
      norm_num [grown]
    have right : grown ^ 5 * (j + micros / 1000 : Rat) ≤ grown ^ 5 * (m + 6 / 25) :=
      mul_le_mul_of_nonneg_left hends (by positivity)
    push_cast
    linarith
  · exact absurd hi (by simp)

/-- **From an instant to a deadline that is counted from it**: the deadline is never earlier, 760
microseconds lead past the instant, and up to 240 microseconds lead nowhere. Nothing is said of what
lies between: near the half of a millisecond the roundings decide. -/
theorem instantOfDay_settled {j micros i : Int} (hj : 0 ≤ j) (hlast : j < endOfTime) (hmicros : 0 ≤ micros)
    (hi : instantOfDay (julianDayAfter j micros) = some i) :
    j ≤ i ∧ (760 ≤ micros → j < i) ∧ (micros ≤ 240 → i = j) := by
  have hm' : (0 : Rat) ≤ micros := by exact_mod_cast hmicros
  have late : j ≤ i := le_instantOfDay hj hmicros (by linarith) hlast.le hi
  refine ⟨late, fun hlong => ?_, fun hshort => le_antisymm ?_ late⟩
  · have hlong' : (760 : Rat) ≤ micros := by exact_mod_cast hlong
    have ends : ((j + 1 : Int) : Rat) ≤ j + micros / 1000 + 6 / 25 := by
      push_cast
      linarith
    exact le_instantOfDay hj hmicros ends hlast hi
  · have hshort' : (micros : Rat) ≤ 240 := by exact_mod_cast hshort
    exact instantOfDay_le hj hmicros (by linarith) hlast.le hi

/-! ## Texts -/

/-- Later instants have later texts. -/
theorem textOfJulian_lt {i j : Int} {a b : String} (hfirst : Calendar.beginning + epochOffset ≤ i)
    (h : i < j) (ha : textOfJulian i = some a) (hb : textOfJulian j = some b) : a < b := by
  unfold textOfJulian at ha hb
  split at ha <;> split at hb <;> simp only [Option.some.injEq, reduceCtorEq] at ha hb
  rename_i hi hj
  subst ha hb
  have hlast : endOfTime = Calendar.ending + epochOffset := rfl
  exact Calendar.timestamp_lt (by omega) (by omega) (by omega)

theorem textOfJulian_le {i j : Int} {a b : String} (hfirst : Calendar.beginning + epochOffset ≤ i)
    (h : i ≤ j) (ha : textOfJulian i = some a) (hb : textOfJulian j = some b) : a ≤ b := by
  rcases h.lt_or_eq with hlt | rfl
  · exact le_of_lt (textOfJulian_lt hfirst hlt ha hb)
  · obtain rfl := Option.some.inj (ha.symm.trans hb)
    exact le_refl a

theorem isClockInstant_iff {j : Int} : isClockInstant j ↔ 0 < j ∧ j < endOfTime := by
  rw [isClockInstant, Bool.and_eq_true, decide_eq_true_iff, decide_eq_true_iff]

theorem nowText_eq_some {t : Int} {a : String} (h : nowText t = some a) :
    0 < t + epochOffset ∧ t + epochOffset < endOfTime ∧ textOfJulian (t + epochOffset) = some a := by
  unfold nowText at h
  dsimp only at h
  split at h
  · rename_i hclock
    obtain ⟨hfirst, hlast⟩ := isClockInstant_iff.mp hclock
    exact ⟨hfirst, hlast, h⟩
  · exact absurd h (by simp)

theorem deadlineText_eq_some {t micros : Int} {a : String} (h : deadlineText t micros = some a) :
    ∃ i, instantOfDay (julianDayAfter (t + epochOffset) micros) = some i ∧ textOfJulian i = some a := by
  unfold deadlineText at h
  dsimp only at h
  split at h
  · exact Option.bind_eq_some_iff.mp h
  · exact absurd h (by simp)

/-! ## The range of deadlines -/

/-- The microseconds from an instant of the clock to the end of the year 9999. -/
def timeLeft (clock : Int) : Int := 1000 * (endOfTime - (clock + epochOffset))

/-- A Julian day that ends a millisecond before the end of time, give or take three roundings, has an
instant before the end of time: the two roundings and the half that come on top do not make up a
millisecond. -/
theorem exists_instantOfDay {day : Rat} (first : 0 ≤ day)
    (last : day * 86400000 ≤ grown ^ 3 * (464269060800000 - 1)) :
    ∃ i, instantOfDay day = some i ∧ 0 ≤ i ∧ i < endOfTime := by
  have known : day < mkRat 10746969 2 := by
    have few : grown ^ 3 * (464269060800000 - 1) < 464269060800000 := by norm_num [grown]
    rw [Rat.mkRat_eq_div]
    push_cast
    linarith
  have hk : (0 : Rat) ≤ kept := by norm_num [kept]
  have nonneg : 0 ≤ day * 86400000 := by positivity
  refine ⟨_, if_pos ⟨first, known⟩, ?_, ?_⟩
  · rw [Rat.le_floor_iff]
    exact le_trans (by positivity) (le_round_millis nonneg (le_refl _))
  · have below : grown * (grown * (grown ^ 3 * (464269060800000 - 1)) + 1 / 2) < 464269060800000 := by
      norm_num [grown]
    rw [Rat.floor_lt_iff]
    exact lt_of_le_of_lt (round_millis_le first last) below

/-- **Within the range**: a deadline a millisecond before the end is computed, whatever the rounding. -/
theorem exists_deadlineText {clock micros : Int} (hclock : isClockInstant (clock + epochOffset))
    (hmicros : 0 ≤ micros) (h : micros + 1000 ≤ timeLeft clock) :
    ∃ d, deadlineText clock micros = some d := by
  obtain ⟨j, hj⟩ : ∃ j, j = clock + epochOffset := ⟨_, rfl⟩
  rw [timeLeft, ← hj] at h
  rw [← hj] at hclock
  obtain ⟨hfirst, -⟩ := isClockInstant_iff.mp hclock
  have ends : (j + micros / 1000 : Rat) ≤ 464269060800000 - 1 := by
    have h' : ((micros + 1000 : Int) : Rat) ≤ ((1000 * (endOfTime - j) : Int) : Rat) := by
      exact_mod_cast h
    unfold endOfTime at h'
    push_cast at h'
    linarith
  have hg : (0 : Rat) < grown := by norm_num [grown]
  have last : julianDayAfter j micros * 86400000 ≤ grown ^ 3 * (464269060800000 - 1) :=
    le_trans (julianDayAfter_le hfirst.le hmicros) (mul_le_mul_of_nonneg_left ends (by positivity))
  obtain ⟨i, hi, bounds⟩ := exists_instantOfDay (julianDayAfter_nonneg hfirst.le hmicros) last
  refine ⟨Calendar.timestamp (i - epochOffset), ?_⟩
  unfold deadlineText
  dsimp only
  rw [← hj, if_pos hclock, hi, Option.bind_some, textOfJulian, if_pos bounds]

/-- **Beyond the range**: a deadline a millisecond behind the end is null. -/
theorem deadlineText_eq_none {clock micros : Int} (hmicros : 0 ≤ micros)
    (h : timeLeft clock + 1000 ≤ micros) : deadlineText clock micros = none := by
  obtain ⟨j, hj⟩ : ∃ j, j = clock + epochOffset := ⟨_, rfl⟩
  rw [timeLeft, ← hj] at h
  unfold deadlineText
  dsimp only
  rw [← hj]
  split
  · rename_i hclock
    obtain ⟨hfirst, -⟩ := isClockInstant_iff.mp hclock
    have ends : (464269060800000 + 1 : Rat) ≤ j + micros / 1000 := by
      have h' : ((1000 * (endOfTime - j) + 1000 : Int) : Rat) ≤ (micros : Rat) := by exact_mod_cast h
      unfold endOfTime at h'
      push_cast at h'
      linarith
    have hk : (0 : Rat) ≤ kept := by norm_num [kept]
    have late : kept ^ 3 * (464269060800000 + 1) ≤ julianDayAfter j micros * 86400000 :=
      le_trans (mul_le_mul_of_nonneg_left ends (by positivity)) (le_julianDayAfter hfirst.le hmicros)
    have unknown : ¬ julianDayAfter j micros < mkRat 10746969 2 := by
      have far : (464269060800000 : Rat) ≤ kept ^ 3 * (464269060800000 + 1) := by norm_num [kept]
      rw [Rat.mkRat_eq_div]
      push_cast
      linarith
    rw [instantOfDay, if_neg (fun known => unknown known.2)]
    rfl
  · rfl

/-! ## The clock -/

/-- **The clock of SQLite**, on a machine whose own is set to the year 0 or later: texts of years before
it, which begin with a sign, do not sort. -/
def clock : Clock String where
  moment t := moment (max t Calendar.beginning)
  steady {t u a b} h ha hb := by
    obtain ⟨-, -, ha⟩ := nowText_eq_some ha
    obtain ⟨-, -, hb⟩ := nowText_eq_some hb
    exact textOfJulian_le (by omega) (by omega) ha hb

/-- The instants behind the texts of now and of a deadline. -/
theorem exists_instants {t micros : Int} {now deadline : String}
    (hnow : (clock.moment t).now = some now) (hafter : (clock.moment t).after micros = some deadline) :
    ∃ j i, Calendar.beginning + epochOffset ≤ j ∧ j < endOfTime ∧ textOfJulian j = some now ∧
      instantOfDay (julianDayAfter j micros) = some i ∧ textOfJulian i = some deadline := by
  obtain ⟨-, hlast, hnow⟩ := nowText_eq_some hnow
  obtain ⟨i, hi, hdeadline⟩ := deadlineText_eq_some hafter
  exact ⟨max t Calendar.beginning + epochOffset, i, by omega, hlast, hnow, hi, hdeadline⟩

/-- **No deadline lies before now.** -/
theorem clock_forward : clock.Forward := by
  intro t ttl now deadline hpos hnow hafter
  obtain ⟨j, i, hfirst, hlast, hj, hi, hdeadline⟩ := exists_instants hnow hafter
  have hstart : 0 ≤ j := le_trans (by decide) hfirst
  obtain ⟨late, -, -⟩ := instantOfDay_settled hstart hlast hpos hi
  exact textOfJulian_le hfirst late hj hdeadline

/-- **SQLite's clock ticks in milliseconds**: 760 microseconds or more lead past now. -/
theorem clock_advances {step : Int} (hstep : 760 ≤ step) : clock.Advances step := by
  intro t ttl now deadline hle hnow hafter
  obtain ⟨j, i, hfirst, hlast, hj, hi, hdeadline⟩ := exists_instants hnow hafter
  have hstart : 0 ≤ j := le_trans (by decide) hfirst
  obtain ⟨-, later, -⟩ := instantOfDay_settled hstart hlast (by omega) hi
  exact textOfJulian_lt hfirst (later (hstep.trans hle)) hj hdeadline

/-- Up to 240 microseconds lead nowhere. -/
theorem after_eq_now {t ttl : Int} {now deadline : String} (hpos : 0 ≤ ttl) (hshort : ttl ≤ 240)
    (hnow : (clock.moment t).now = some now) (hafter : (clock.moment t).after ttl = some deadline) :
    deadline = now := by
  obtain ⟨j, i, hfirst, hlast, hj, hi, hdeadline⟩ := exists_instants hnow hafter
  have hstart : 0 ≤ j := le_trans (by decide) hfirst
  obtain ⟨-, -, same⟩ := instantOfDay_settled hstart hlast hpos hi
  rw [same hshort] at hdeadline
  exact Option.some.inj (hdeadline.symm.trans hj)

/-! ## Deployments on SQLite's own clock -/

section

variable {ι : Type} [DecidableEq ι] {d : Deployment ι String} {ttl : Duration}

/-- **On SQLite's own clock** only a statement that has a lease's token can harm the lease. -/
theorem mem_tokens_of_harms {rules : Rules} {s : System ι String} {i : ι} {lease : Row String} {n : Nat}
    {x : Issued ι} (hclock : d.clock = clock) (h : System.Reachable d rules s)
    (hx : s.issued[n]? = some x) (howner : x.owner = some i) (hharm : s.Harms d i lease n x) :
    lease.token ∈ x.request.tokens :=
  System.mem_tokens_of_harms h.sound (hclock ▸ clock_forward) hx howner hharm

/-- **On SQLite's own clock** every lease of 760 microseconds or more is live when it is granted. -/
theorem grantsLive (hback : d.backend = .sqlite) (hclock : d.clock = clock)
    (hs : d.backend.shadows d.table = false) (httl : 760000 ≤ ttl.nanos) : d.GrantsLive ttl := by
  have bound : 760 ≤ d.backend.boundTtl ttl := by
    have most : (760 : Int) ≤ maxTtlMicros := by decide
    rw [hback]
    simp only [Backend.boundTtl, Duration.micros]
    omega
  exact Deployment.grantsLive hs (hclock ▸ clock_advances (le_refl 760)) bound (by decide)

/-- A lease of less than 241 microseconds has expired when it is granted. -/
theorem not_grantsLive (hback : d.backend = .sqlite) (hclock : d.clock = clock)
    (hs : d.backend.shadows d.table = false) (httl : ttl.nanos < 241000) : ¬ d.GrantsLive ttl := by
  have nonneg : 0 ≤ d.backend.boundTtl ttl := d.backend.boundTtl_nonneg ttl
  have short : d.backend.boundTtl ttl ≤ 240 := by
    rw [hback]
    simp only [Backend.boundTtl, Duration.micros]
    omega
  -- any instant will do: the beginning of 1970
  have hnow : (clock.moment 0).now = some (Calendar.timestamp 0) := rfl
  obtain ⟨deadline, hafter⟩ : ∃ deadline,
      deadlineText (max 0 Calendar.beginning) (d.backend.boundTtl ttl) = some deadline :=
    exists_deadlineText (by decide) nonneg (le_trans (Int.add_le_add_right short 1000) (by decide))
  replace hafter : (clock.moment 0).after (d.backend.boundTtl ttl) = some deadline := hafter
  obtain rfl := after_eq_now nonneg short hnow hafter
  rw [← hclock] at hnow hafter
  exact Deployment.not_grantsLive_of_due hs hnow hafter

end

end LeaseLock.Sqlite
