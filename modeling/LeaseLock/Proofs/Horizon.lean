/-
# LeaseLock.Proofs.Horizon -- how far ahead SQLite can set a deadline

SQLite knows no instant after the year 9999, and the column of deadlines takes no null. A time to live
is cut to 63 bits of microseconds, which is some 290000 years, so a long one leads beyond the last
instant: then the deadline is null, and the claim fails on its column although nobody has the key
(`Handle.acquires_free_key_iff`). The bounds are sharp up to a millisecond (`Sqlite.exists_deadlineText`,
`Sqlite.deadlineText_eq_none`).
-/
import LeaseLock.Proofs.AcquireOutcome
import LeaseLock.Proofs.Outcome
import LeaseLock.Proofs.Shadowing
import LeaseLock.Proofs.SqliteClock
import LeaseLock.Proofs.SqliteDatabase

namespace LeaseLock

/-! ## A claim on a free key -/

section

open Sqlite

variable {m : Manager} {v : LeaseValues} {clock : Int} {t : Table String} {table : String}
  (limit : Option Duration)

/-- The row that a claim leaves at a free key of a table: the old one, where the table's name shadows
the proposed row. -/
def rowLeft (table : String) (old : Option (Row String)) (new : Row String) : Row String :=
  if Database.shadowsProposal table then old.getD new else new

theorem rowLeft_token_iff {old : Option (Row String)} {new : Row String} :
    (rowLeft table old new).token = new.token ↔
      (Database.shadowsProposal table → ∀ r, old = some r → r.token = new.token) := by
  unfold rowLeft
  split
  · rename_i shadows
    cases old with
    | none => simp
    | some r => simp [shadows]
  · rename_i plain
    simp [plain]

/-- **A claim on a free key counts**, and leaves its row or the old one. -/
theorem sqliteClaim_free {d : String}
    (hd : (moment clock).after (Backend.sqlite.boundTtl v.ttl) = some d)
    (free : ∀ r, t.row? v.key = some r → r.isExpired (moment clock)) :
    ∃ t', Request.effect ⟨sqliteClaim table, (sqliteClaim table).bind v, limit⟩ (moment clock) t =
        .ok (1, t') ∧
      t'.row? v.key = some (rowLeft table (t.row? v.key) ⟨v.key, v.token, d⟩) := by
  have claimable : ∀ r, t.row? v.key = some r → r.isClaimable (moment clock) v := by
    intro r hr
    rw [Row.isClaimable, free r hr, Bool.true_or]
  cases hs : Database.shadowsProposal table with
  | false =>
      have plain : Backend.sqlite.shadows table = false := hs
      have plan : Backend.sqlite.claim table = .single (sqliteClaim table) := rfl
      obtain ⟨n, t', heff, counts⟩ := Backend.single_counts limit t plan plain hd
      have acts := (Request.IsOf.claim (by rw [plan]; exact List.mem_singleton_self _)).acts
        (by simp) heff
      have row := acts.row
      rw [plain] at row
      refine ⟨t', ?_⟩
      rw [rowLeft, hs, heff]
      generalize t'.row? v.key = new at row ⊢
      generalize hold : t.row? v.key = old at row counts claimable
      cases row with
      | refused shut =>
          cases new with
          | none => exact absurd (counts rfl) (by simp)
          | some r => exact absurd (claimable r rfl) (by rw [shut r rfl]; simp)
      | taken _ hd' =>
          obtain rfl := Option.some.inj (hd.symm.trans hd')
          exact ⟨rfl, rfl⟩
      | rewritten shadowed => exact absurd shadowed (by simp)
  | true =>
      have effect := sqliteClaim_effect hs v limit (moment clock) t hd
      cases hrow : t.row? v.key with
      | none =>
          obtain ⟨t', inserted⟩ := Table.insert?_of_row?_eq_none (r := ⟨v.key, v.token, d⟩) hrow
          obtain ⟨-, present, -⟩ := Table.row?_insert? inserted
          rw [hrow, inserted] at effect
          refine ⟨t', effect, ?_⟩
          rw [present, rowLeft, if_pos hs]
          rfl
      | some old =>
          rw [hrow] at effect
          dsimp only at effect
          rw [if_pos (claimable old hrow)] at effect
          refine ⟨t, effect, ?_⟩
          rw [hrow, rowLeft, if_pos hs]
          rfl

/-- A claim whose deadline is null fails, whatever the table. -/
theorem sqliteClaim_null (hd : (moment clock).after (Backend.sqlite.boundTtl v.ttl) = none) :
    Request.effect ⟨sqliteClaim table, (sqliteClaim table).bind v, limit⟩ (moment clock) t =
      .error nullDeadline := by
  have refused : Command.newRow (moment clock) ((sqliteClaim table).bind v) 1 2 3 =
      .error nullDeadline := Command.newRow_null (v := v) rfl hd rfl rfl
  cases hs : Database.shadowsProposal table with
  | false =>
      have plain : Backend.sqlite.shadows table = false := hs
      rw [Request.effect, Statement.effect_eq t plain]
      exact Command.upsert_null (v := v) t rfl hd rfl rfl _
  | true =>
      show Database.effectOn table (moment clock) ((sqliteClaim table).bind v) t
        (.upsert 1 2 3 (.claimable 4 5)) = _
      simp only [Database.effectOn, hs, Database.upsertInPlace, refused]
      rfl

end

/-! ## An acquisition of a free key -/

namespace Handle

open Sqlite

/-- **An acquisition at SQLite's database** sends its one statement and concludes from its outcome. -/
theorem acquire_run (h : Handle) {m : Manager} (hdialect : m.dialect = .sqlite) (fresh : Token)
    {ttl : Duration} (httl : ttl.isZero = false) {db : Database} {t : Table String}
    (ready : db.Ready m.tableName t) :
    let request := m.request (sqliteClaim m.tableName) (h.claimValues (h.nextToken fresh) ttl)
    let outcome := request.outcome (moment db.clock) t
    let verdict := match outcome.1 with
      | .ok n => .ok (decide (0 < n))
      | .error v => .error (.database (Database.violated m.tableName v).cause)
    ∃ events, (h.acquire m fresh ttl).run Database.serve db =
      ({ db with table := some outcome.2 }, ⟨(h.concludes (h.nextToken fresh) verdict).1,
        (h.concludes (h.nextToken fresh) verdict).2, events⟩) := by
  intro request outcome verdict
  obtain ⟨next, claims, concludes⟩ := h.exists_acquire_concludes m fresh httl
  have plan : m.claimPlan = .single (sqliteClaim m.tableName) := by
    rw [Manager.claimPlan, hdialect]
    rfl
  have served : db.serve request = ({ db with table := some outcome.2 },
      .answered (outcome.1.mapError (Database.violated m.tableName))) := ready.serve_eq rfl rfl
  have read : (Reply.answered (outcome.1.mapError (Database.violated m.tableName))).rows.map
      (fun n => decide (0 < n)) = verdict := by
    show _ = match outcome.1 with
      | .ok n => _
      | .error v => _
    cases outcome.1 <;> rfl
  obtain ⟨events, done⟩ := concludes verdict
  refine ⟨events, ?_⟩
  rw [claims, Manager.claim, plan]
  simp only [Manager.send, Call.run]
  rw [show db.serve (m.request (sqliteClaim m.tableName) _) = _ from served]
  simp only [read, done, Call.run]

variable {h : Handle} {m : Manager} {fresh : Token} {ttl : Duration} {db : Database}
  {t : Table String}

/-- An acquisition whose deadline is null fails on the column's rule and changes nothing. -/
theorem acquire_run_null (h : Handle) (m : Manager) (fresh : Token) (hdialect : m.dialect = .sqlite)
    (httl : ttl.isZero = false) (ready : db.Ready m.tableName t)
    (hd : deadlineText db.clock (Backend.sqlite.boundTtl ttl) = none) :
    let ran := (h.acquire m fresh ttl).run Database.serve db
    ran.1 = db ∧ ran.2.result = .error (.transport h.key .acquire
      (.database (Database.violated m.tableName (.notNull "expires_at")).cause)) := by
  intro ran
  let request := m.request (sqliteClaim m.tableName) (h.claimValues (h.nextToken fresh) ttl)
  obtain ⟨events, run⟩ := h.acquire_run hdialect fresh httl ready
  have outcome : request.outcome (moment db.clock) t = (.error nullDeadline, t) := by
    rw [Request.outcome, show request.effect _ _ = _ from sqliteClaim_null m.timeout hd]
  rw [show ran = _ from run, show Request.outcome _ _ _ = _ from outcome, ← ready.there]
  exact ⟨rfl, rfl⟩

/-- An acquisition of a free key with a deadline that is computed succeeds, and leaves the claim's row
or the old one. -/
theorem acquire_run_free (h : Handle) (m : Manager) (fresh : Token) (hdialect : m.dialect = .sqlite)
    (httl : ttl.isZero = false) (ready : db.Ready m.tableName t)
    (free : ∀ r, t.row? h.key = some r → r.isExpired (moment db.clock)) {d : String}
    (hd : deadlineText db.clock (Backend.sqlite.boundTtl ttl) = some d) :
    let ran := (h.acquire m fresh ttl).run Database.serve db
    ran.2.result = .ok () ∧ ∃ t', ran.1.table = some t' ∧
      t'.row? h.key = some (rowLeft m.tableName (t.row? h.key) ⟨h.key, h.nextToken fresh, d⟩) := by
  intro ran
  let request := m.request (sqliteClaim m.tableName) (h.claimValues (h.nextToken fresh) ttl)
  obtain ⟨events, run⟩ := h.acquire_run hdialect fresh httl ready
  obtain ⟨t', effect, left⟩ :=
    sqliteClaim_free (v := h.claimValues (h.nextToken fresh) ttl) m.timeout hd free
  have outcome : request.outcome (moment db.clock) t = (.ok 1, t') := by
    rw [Request.outcome, show request.effect _ _ = _ from effect]
  rw [show ran = _ from run, show Request.outcome _ _ _ = _ from outcome]
  exact ⟨rfl, t', rfl, left⟩

/-- **Which acquisitions of a free key succeed at SQLite's database**, and leave a row with the token that
was sent: those whose deadline is computed, unless the table shadows the proposed row and the key has
an expired row of another token, which is left there. An acquisition whose deadline is null fails on
the column's rule and changes nothing. Whether the deadline is computed is settled up to a millisecond
by the time that is left to the clock until the end of the year 9999. -/
theorem acquires_free_key_iff (h : Handle) (m : Manager) (fresh : Token) (hdialect : m.dialect = .sqlite)
    (httl : ttl.isZero = false) (ready : db.Ready m.tableName t)
    (hclock : isClockInstant (db.clock + epochOffset))
    (free : ∀ r, t.row? h.key = some r → r.isExpired (moment db.clock)) :
    let bound := Backend.sqlite.boundTtl ttl
    let ran := (h.acquire m fresh ttl).run Database.serve db
    ((ran.2.result = .ok () ∧ ∃ t' r, ran.1.table = some t' ∧ t'.row? h.key = some r ∧
        r.token = h.nextToken fresh) ↔
      (∃ d, deadlineText db.clock bound = some d) ∧ (Database.shadowsProposal m.tableName →
        ∀ r, t.row? h.key = some r → r.token = h.nextToken fresh)) ∧
    (deadlineText db.clock bound = none → ran.1 = db ∧ ran.2.result = .error (.transport h.key .acquire
      (.database (Database.violated m.tableName (.notNull "expires_at")).cause))) ∧
    (bound + 1000 ≤ timeLeft db.clock → ∃ d, deadlineText db.clock bound = some d) ∧
    (timeLeft db.clock + 1000 ≤ bound → deadlineText db.clock bound = none) := by
  intro bound ran
  have nonneg : 0 ≤ bound := Backend.sqlite.boundTtl_nonneg ttl
  refine ⟨?_, h.acquire_run_null m fresh hdialect httl ready, exists_deadlineText hclock nonneg,
    deadlineText_eq_none nonneg⟩
  cases hd : deadlineText db.clock bound with
  | none =>
      obtain ⟨-, failed⟩ := h.acquire_run_null m fresh hdialect httl ready hd
      constructor
      · rintro ⟨success, -⟩
        rw [failed] at success
        exact absurd success (by simp)
      · rintro ⟨⟨d, impossible⟩, -⟩
        exact absurd impossible (by simp)
  | some d =>
      obtain ⟨success, t', kept, left⟩ := h.acquire_run_free m fresh hdialect httl ready free hd
      have ours : (rowLeft m.tableName (t.row? h.key) ⟨h.key, h.nextToken fresh, d⟩).token =
          h.nextToken fresh ↔ _ := rowLeft_token_iff
      constructor
      · rintro ⟨-, t'', r, there, row, token⟩
        obtain rfl := Option.some.inj (kept.symm.trans there)
        obtain rfl := Option.some.inj (row.symm.trans left)
        exact ⟨⟨d, rfl⟩, ours.mp token⟩
      · rintro ⟨-, unharmed⟩
        exact ⟨success, t', _, kept, left, ours.mpr unharmed⟩

/-- A time to live without end is refused by the column's rule, though the key is free and all names
pass the checks. -/
theorem free_key_not_acquired :
    let m : Manager := ⟨.sqlite, "distributed_locks", none⟩
    let h : Handle := { key := "job" }
    let db : Database := { tableName := m.tableName, clock := 1704067200000, table := some ∅ }
    let ttl : Duration := ⟨18446744073709551615999999999⟩
    (TableName.check m.tableName = .ok () ∧ checkKey h.key = .ok ()) ∧ m.dialect = .sqlite ∧
      ttl.isZero = false ∧ db.Ready m.tableName ∅ ∧
      isClockInstant (db.clock + epochOffset) ∧
      (∀ r, (∅ : Table String).row? h.key = some r → r.isExpired (moment db.clock)) ∧
      ((h.acquire m "A" ttl).run Database.serve db).2.result = .error (.transport "job" .acquire
        (.database (Database.violated "distributed_locks" (.notNull "expires_at")).cause)) := by
  intro m h db ttl
  have ready : db.Ready m.tableName ∅ := ⟨rfl, rfl, rfl⟩
  have unused : ∀ r, (∅ : Table String).row? h.key = some r → r.isExpired (moment db.clock) := by
    intro r here
    exact absurd here (by simp [Table.row?_empty])
  have positive : ttl.isZero = false := rfl
  obtain ⟨-, failing, -, beyond⟩ := acquires_free_key_iff h m "A" rfl positive ready rfl unused
  have late : timeLeft db.clock + 1000 ≤ Backend.sqlite.boundTtl ttl := by decide
  exact ⟨⟨by cbv, by cbv⟩, rfl, positive, ready, rfl, unused, (failing (beyond late)).2⟩

end Handle

end LeaseLock
