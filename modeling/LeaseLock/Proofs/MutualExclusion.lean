/-
# LeaseLock.Proofs.MutualExclusion -- nobody else claims a key before its deadline

A claim or an extension that counted gives its handle a promise: until the deadline that it wrote has
passed, no claim of another handle counts on this key. The promise **stands** while the deadline has
passed or the row is still there, with that deadline and a token of that handle. Every step keeps it
standing, except effects of the handle's own statements, which may well change the row.

Nothing is assumed on the order of the steps: statements may take effect long after their call gave
up, between the two statements of another claim, or never; replies may be lost or false.
-/
import LeaseLock.Proofs.Ownership

namespace LeaseLock

variable {ι δ : Type} [LinearOrder δ]

/-! ## Deadlines that have passed -/

namespace Clock

variable {c : Clock δ} {deadline : δ} {t u : Int}

theorem Passed.mono (h : c.Passed deadline t) (htu : t ≤ u) : c.Passed deadline u := by
  obtain ⟨w, now, hw, hnow, hle⟩ := h
  exact ⟨w, now, Int.le_trans hw htu, hnow, hle⟩

theorem Passed.of_le (h : c.Passed deadline t) {earlier : δ} (hle : earlier ≤ deadline) :
    c.Passed earlier t := by
  obtain ⟨w, now, hw, hnow, hlate⟩ := h
  exact ⟨w, now, hw, hnow, le_trans hle hlate⟩

/-- The clock never goes back before a deadline that has passed. -/
theorem Passed.le (h : c.Passed deadline t) {now : δ} (hnow : (c.moment t).now = some now) :
    deadline ≤ now := by
  obtain ⟨w, seen, hw, hseen, hle⟩ := h
  exact le_trans hle (c.steady hw hseen hnow)

theorem passed_of_isExpired {r : Row δ} (h : r.isExpired (c.moment t)) : c.Passed r.deadline t := by
  obtain ⟨now, hnow, hlt⟩ := Row.isExpired_iff.mp h
  exact ⟨t, now, Int.le_refl t, hnow, not_lt.mp hlt⟩

end Clock

/-! ## Entries of the log -/

namespace Entry

/-- A claim or an extension of a handle counted and wrote this deadline. -/
structure Wrote (e : Entry ι δ) (i : ι) (deadline : δ) : Prop where
  owner : e.owner = some i
  operation : e.operation = .acquire ∨ e.operation = .extend
  counted : 0 < e.affected
  row : ∃ r, e.row = some r ∧ r.deadline = deadline

/-- A claim of a handle inserted or updated the row of its key. -/
structure Claimed (e : Entry ι δ) (i : ι) : Prop where
  owner : e.owner = some i
  operation : e.operation = .acquire
  counted : 0 < e.affected

end Entry

namespace System

/-! ## Promises that stand -/

section

variable {d : Deployment ι δ} {s : System ι δ} {i j : ι} {deadline : δ}

/-- **The promise to a handle stands**: its deadline has passed, or its row still says so. -/
def Stands (d : Deployment ι δ) (s : System ι δ) (i : ι) (deadline : δ) : Prop :=
  d.clock.Passed deadline s.time ∨
    ∃ r, s.table.row? (d.key i) = some r ∧ r.deadline = deadline ∧ s.Mints i r.token

/-- A statement that counts gives a promise. -/
theorem stands_of_wrote (hs : s.Sound d) {n : Nat} {x : Issued ι} (hx : s.issued[n]? = some x)
    {e : Entry ι δ} (hlog : (s.execute d n x).log = e :: s.log) (he : e.Wrote i deadline) :
    Stands d (s.execute d n x) i deadline := by
  obtain ⟨k, t, outcome, heff, -, hexec⟩ := hs.effect_cases hx
  rw [hexec] at hlog ⊢
  obtain rfl := (List.cons.inj hlog).1
  obtain ⟨howner, hop, hk, r, hrow, rfl⟩ := he
  dsimp only at howner hop hk hrow
  rw [howner, Option.bind_some] at hrow
  cases heff with
  | failed => exact absurd hk (Nat.lt_irrefl 0)
  | purged hnone _ _ => exact absurd (hnone.symm.trans howner) (by simp)
  | acted hi _ hkey hv _ acts =>
      obtain rfl := Option.some.inj (howner.symm.trans hi)
      have row := acts.row
      rw [hkey, hrow] at row
      rcases row.counted hk with hn | hexp
      · -- the row carries a token of the handle's own, now or before
        refine Or.inr ⟨r, hrow, rfl, ?_⟩
        have after : (s.execute d n x).table.row? (d.key i) = some r := by
          rw [hexec]
          exact hrow
        exact (hs.execute hx).mints_of_names hv after hn
      · exact Or.inl (Clock.passed_of_isExpired hexp)

/-- **Effects keep a promise**, but for those that its handle causes itself. -/
theorem stands_execute (hs : s.Sound d) {n : Nat} {x : Issued ι} (hx : s.issued[n]? = some x)
    (h : Stands d s i deadline)
    (quiet : ∀ e, (s.execute d n x).log = e :: s.log → e.owner = some i → e.affected = 0) :
    Stands d (s.execute d n x) i deadline := by
  obtain ⟨k, t, outcome, heff, -, hexec⟩ := hs.effect_cases hx
  rw [hexec] at quiet ⊢
  rcases h with hpassed | ⟨r, hr, rfl, hT⟩
  · exact Or.inl hpassed
  by_cases hown : x.owner = some i
  · -- a statement of its own that affects no row leaves the row as it is
    have hk : k = 0 := quiet _ rfl hown
    subst hk
    exact Or.inr ⟨r, (heff.row_of_zero hown _).trans hr, rfl, hT⟩
  by_cases hexp : r.isExpired (d.clock.moment s.time) = true
  · exact Or.inl (Clock.passed_of_isExpired hexp)
  · exact Or.inr ⟨r, (heff.row_kept hs hr hT hown hexp).1, rfl, hT⟩

/-- **While a promise stands** no claim of another handle counts before the deadline. -/
theorem passed_of_claimed (hs : s.Sound d) {n : Nat} {x : Issued ι} (hx : s.issued[n]? = some x)
    (h : Stands d s i deadline) {e : Entry ι δ} (hlog : (s.execute d n x).log = e :: s.log)
    (he : e.Claimed j) (hij : j ≠ i) (hkey : d.key j = d.key i) :
    e.time = s.time ∧ d.clock.Passed deadline s.time := by
  obtain ⟨k, t, outcome, heff, -, hexec⟩ := hs.effect_cases hx
  rw [hexec] at hlog
  obtain rfl := (List.cons.inj hlog).1
  obtain ⟨howner, -, hk⟩ := he
  refine ⟨rfl, ?_⟩
  rcases h with hpassed | ⟨r, hr, rfl, hT⟩
  · exact hpassed
  have hother : x.owner ≠ some i := by
    intro hi
    exact hij (Option.some.inj (howner.symm.trans hi))
  by_cases hexp : r.isExpired (d.clock.moment s.time) = true
  · exact Clock.passed_of_isExpired hexp
  · have hzero := (heff.row_kept hs hr hT hother hexp).2 j howner hkey
    exact absurd (hzero ▸ hk) (Nat.lt_irrefl 0)

end

/-! ## Along a run -/

variable [DecidableEq ι] {d : Deployment ι δ} {rules : Rules} {s s' : System ι δ} {i j : ι}
  {deadline : δ}

theorem Stands.quiet_step {move : Move ι} (h : Stands d s i deadline)
    (hs : s.step d rules move = some s') (htable : s'.table = s.table) (htime : s.time ≤ s'.time) :
    Stands d s' i deadline := by
  rcases h with hpassed | ⟨r, hr, hd, hT⟩
  · exact Or.inl (hpassed.mono htime)
  · exact Or.inr ⟨r, htable ▸ hr, hd, minted_step hs hT⟩

/-- **A promise stands along every run** from the effect that gave it, as long as no statement of its
own handle counts. -/
theorem Reachable.stands (h : Reachable d rules s) {mid earlier : List (Entry ι δ)}
    {e : Entry ι δ} (hlog : s.log = mid ++ e :: earlier) (he : e.Wrote i deadline)
    (quiet : ∀ x ∈ mid, x.owner = some i → x.affected = 0) : Stands d s i deadline := by
  induction h generalizing mid with
  | start time => exact absurd hlog (by simp [System.start])
  | @step s s' move hr hs ih =>
      rcases effect_or_quiet hs with ⟨n, x, hx, -, rfl⟩ | ⟨htable, hsame, htime⟩
      · obtain ⟨entry, hentry⟩ := log_execute d s n x
        rw [hentry] at hlog
        -- the newest entry is the one that gave the promise, or came after it
        rcases List.cons_eq_append_iff.mp hlog with ⟨rfl, hnew⟩ | ⟨mid', rfl, hrest⟩
        · obtain ⟨rfl, -⟩ := List.cons.inj hnew
          exact stands_of_wrote hr.sound hx hentry he
        · have before : Stands d s i deadline :=
            ih hrest fun y hy => quiet y (List.mem_cons_of_mem _ hy)
          refine stands_execute hr.sound hx before fun y hy => ?_
          obtain ⟨rfl, -⟩ := List.cons.inj (hentry.symm.trans hy)
          exact quiet entry List.mem_cons_self
      · exact (ih (hsame ▸ hlog) quiet).quiet_step hs htable htime

/-- **Mutual exclusion of leases.** After a claim or an extension of a handle counted and wrote a
deadline, a claim of another handle inserts or updates the row only once the database's clock has
reached that deadline, unless a statement of the first handle counted in between. -/
theorem claimed_after_deadline (h : Reachable d rules s) {later mid earlier : List (Entry ι δ)}
    {e e' : Entry ι δ} (hlog : s.log = later ++ e' :: (mid ++ e :: earlier))
    (he : e.Wrote i deadline) (he' : e'.Claimed j) (hij : j ≠ i) (hkey : d.key j = d.key i)
    (quiet : ∀ x ∈ mid, x.owner = some i → x.affected = 0) {now : δ}
    (hnow : (d.clock.moment e'.time).now = some now) : deadline ≤ now := by
  induction h generalizing later with
  | start time => exact absurd hlog (by simp [System.start])
  | @step s s' move hr hs ih =>
      rcases effect_or_quiet hs with ⟨n, x, hx, -, rfl⟩ | ⟨-, hsame, -⟩
      · obtain ⟨entry, hentry⟩ := log_execute d s n x
        rw [hentry] at hlog
        rcases List.cons_eq_append_iff.mp hlog with ⟨rfl, hnew⟩ | ⟨later', rfl, hrest⟩
        · obtain ⟨rfl, hold⟩ := List.cons.inj hnew
          have stands : Stands d s i deadline := hr.stands hold.symm he quiet
          obtain ⟨htime, hpassed⟩ := passed_of_claimed hr.sound hx stands hentry he' hij hkey
          exact hpassed.le (htime ▸ hnow)
        · exact ih hrest
      · exact ih (hsame ▸ hlog)

/-- One handle claims a key for ten ticks; at the tenth another one takes it over. -/
def takeover : List (Move Duellist) :=
  [.acquire .holder "A" ⟨10000⟩, .effect 0, .tick 10, .acquire .rival "B" ⟨5000⟩, .effect 1]

theorem claimed_at_deadline :
    ∃ (s : System Duellist Int) (e e' : Entry Duellist Int),
      Reachable (.duel .postgres "locks") .anything s ∧ s.log = [] ++ e' :: ([] ++ e :: []) ∧
      e.Wrote .holder 10 ∧ e'.Claimed .rival ∧ e'.time = 10 ∧ (10 : Int) ≤ 10 := by
  have ends : (play (.duel .postgres "locks") .anything takeover).map log =
      some [⟨some .rival, .acquire, 1, 10, 1, some ⟨"job", "B", 15⟩⟩,
        ⟨some .holder, .acquire, 0, 0, 1, some ⟨"job", "A", 10⟩⟩] := by rfl
  obtain ⟨s, hrun, hends⟩ := Option.map_eq_some_iff.mp ends
  have hlog : s.log = [] ++ _ :: ([] ++ _ :: []) := hends
  have hr : Reachable (.duel .postgres "locks") .anything s := reachable_play hrun
  have he : Entry.Wrote (⟨some .holder, .acquire, 0, 0, 1, some ⟨"job", "A", 10⟩⟩ : Entry Duellist Int) .holder 10 :=
    ⟨rfl, Or.inl rfl, Nat.one_pos, _, rfl, rfl⟩
  have he' : Entry.Claimed (⟨some .rival, .acquire, 1, 10, 1, some ⟨"job", "B", 15⟩⟩ : Entry Duellist Int) .rival :=
    ⟨rfl, rfl, Nat.one_pos⟩
  exact ⟨s, _, _, hr, hlog, he, he', rfl,
    claimed_after_deadline hr hlog he he' (by decide) rfl (by simp) rfl⟩

end System

end LeaseLock
