/-
# LeaseLock.Proofs.Granting -- when a granted lease is live

A time to live is checked to the nanosecond and bound in a coarser unit, and what is left of a
positive one may be nothing. Then the deadline is now, the row has expired as soon as it is written,
and any other handle may claim it at the same instant. From the shortest time to live that the clock
of the backend can tell from zero, a lease is live when it is granted, and for that instant it is
exclusive.
-/
import LeaseLock.Proofs.History
import LeaseLock.Proofs.LeaseTable
import LeaseLock.Proofs.MutualExclusion

namespace LeaseLock

/-! ## Bound times to live -/

/-- The number that a request binds as its time to live. -/
def Request.ttl? (r : Request) : Option Int :=
  (r.statement.parameters.zip r.arguments).findSome? fun
    | (.ttlMicros, .int n) | (.ttlMillis, .int n) => some n
    | _ => none

/-- Claims and extensions bind a time to live. -/
theorem Request.IsOf.ttl?_eq {b : Backend} {table : String} {op : Operation} {v : LeaseValues}
    {r : Request} (h : Request.IsOf b table op v r) (hop : op = .acquire ∨ op = .extend) :
    r.ttl? = some (b.boundTtl v.ttl) := by
  cases h with
  | claim hs =>
      cases b with
      | sqlite | postgres | mssql =>
          obtain rfl := List.mem_singleton.mp hs
          rfl
      | mysql =>
          rcases List.mem_cons.mp hs with rfl | hs
          · rfl
          · obtain rfl := List.mem_singleton.mp hs
            rfl
  | extend => cases b <;> rfl
  | release | purge => exact absurd hop (by simp)

namespace Backend

/-- The smallest number that, bound as a time to live, moves a deadline on: SQLite takes microseconds
and writes milliseconds, the others write what they take. -/
def resolution : Backend → Int
  | .sqlite => 1000
  | _ => 1

/-- The shortest time to live that moves a deadline on. -/
def shortestTtl : Backend → Duration
  | .sqlite | .mssql => .ofMillis 1
  | .mysql | .postgres => ⟨1000⟩

theorem resolution_pos (b : Backend) : 0 < b.resolution := by cases b <;> decide

theorem resolution_le_boundTtl (b : Backend) (ttl : Duration) :
    b.resolution ≤ b.boundTtl ttl ↔ b.shortestTtl.nanos ≤ ttl.nanos := by
  have micros : (1000 : Int) ≤ maxTtlMicros := by decide
  have millis : (1 : Int) ≤ maxTtlMillis := by decide
  cases b <;>
    simp only [resolution, boundTtl, shortestTtl, Duration.micros, Duration.millis,
      Duration.ofMillis] <;> omega

end Backend

/-- The clock moves on: a time to live of so many units or more leads to a deadline after now. -/
def Clock.Advances {δ : Type} [LinearOrder δ] (c : Clock δ) (step : Int) : Prop :=
  ∀ {t ttl : Int} {now deadline : δ}, step ≤ ttl → (c.moment t).now = some now →
    (c.moment t).after ttl = some deadline → now < deadline

theorem Clock.integral_advances : Clock.integral.Advances 1 := by
  intro t ttl now deadline hle hnow hafter
  obtain rfl := Option.some.inj hnow
  obtain rfl := Option.some.inj hafter
  omega

/-- A clock of the integers that ticks once in so many units. -/
def Clock.ticking (step : Int) : Clock Int where
  moment t := ⟨some t, fun ttl => some (t + ttl / step)⟩
  steady h ha hb := by
    obtain rfl := Option.some.inj ha
    obtain rfl := Option.some.inj hb
    exact h

theorem Clock.ticking_advances {step : Int} (hpos : 0 < step) : (Clock.ticking step).Advances step := by
  intro t ttl now deadline hle hnow hafter
  obtain rfl := Option.some.inj hnow
  obtain rfl := Option.some.inj hafter
  have ticked : 1 ≤ ttl / step := (Int.le_ediv_iff_mul_le hpos).mpr (by omega)
  omega

/-! ## Grants -/

namespace System

section

variable {ι δ : Type} [LinearOrder δ]

/-- The statement of an entry binds this time to live. -/
def BindsTtl (s : System ι δ) (e : Entry ι δ) (ttl : Int) : Prop :=
  ∃ x, s.issued[e.statement]? = some x ∧ x.request.ttl? = some ttl

end

end System

section

variable {ι δ : Type} [DecidableEq ι] [LinearOrder δ]

/-- **A grant**: at an instant, a claim or an extension of a handle with this time to live affects the
row of its key, and leaves this table behind. -/
structure Deployment.Grants (d : Deployment ι δ) (ttl : Duration) (time : Int) (now : δ)
    (v : LeaseValues) (t' : Table δ) : Prop where
  now : (d.clock.moment time).now = some now
  ttl : v.ttl = ttl
  counted : ∃ op r t n, (op = .acquire ∨ op = .extend) ∧ Request.IsOf d.backend d.table op v r ∧
    r.effect (d.clock.moment time) t = .ok (n, t') ∧ 0 < n

/-- **Live grants** with a time to live. -/
structure Deployment.GrantsLive (d : Deployment ι δ) (ttl : Duration) : Prop where
  bound : 1 ≤ d.backend.boundTtl ttl
  /-- The deadline that was written is later than now. -/
  live : ∀ {time now v t'}, d.Grants ttl time now v t' →
    ∃ r, t'.row? v.key = some r ∧ now < r.deadline
  /-- At the same instant the key is refused to claims that do not name the row's token. -/
  refused : ∀ {time now v t' v₂ r₂ n₂ t₂}, d.Grants ttl time now v t' →
    Request.IsOf d.backend d.table .acquire v₂ r₂ → v₂.key = v.key →
    (∀ r, t'.row? v.key = some r → ¬ v₂.Names r.token) →
    r₂.effect (d.clock.moment time) t' = .ok (n₂, t₂) → n₂ = 0 ∧ t₂.row? = t'.row?
  /-- In no run do claims of two handles count on one key at one instant, if no statement of the first
  handle counts in between: no release, which gives the key away, but no extension either. -/
  exclusive : ∀ {rules s}, System.Reachable d rules s → ∀ {i j later mid earlier e e' now now'},
    s.log = later ++ e' :: (mid ++ e :: earlier) → e.Claimed i →
    s.BindsTtl e (d.backend.boundTtl ttl) → e'.Claimed j → j ≠ i → d.key j = d.key i →
    (∀ x ∈ mid, x.owner = some i → x.affected = 0) → (d.clock.moment e.time).now = some now →
    (d.clock.moment e'.time).now = some now' → now ≠ now'

variable {d : Deployment ι δ} {ttl : Duration} {time step : Int} {now : δ} {v : LeaseValues} {t' : Table δ}
  {op : Operation} {old new : Option (Row δ)} {n : Nat}

omit [DecidableEq ι] in
/-- Where the clock moves on, a row that was written is live. -/
theorem RowEffect.live (h : RowEffect false (d.clock.moment time) (d.backend.boundTtl ttl) v op old n new)
    (hop : op = .acquire ∨ op = .extend) (hn : 0 < n)
    (hclock : d.clock.Advances step) (httl : step ≤ d.backend.boundTtl ttl)
    (hnow : (d.clock.moment time).now = some now) : ∃ r, new = some r ∧ now < r.deadline := by
  cases h with
  | refused _ | unextended _ => exact absurd hn (Nat.lt_irrefl 0)
  | taken _ hd => exact ⟨_, rfl, hclock httl hnow hd⟩
  | extended _ _ hd => exact ⟨_, rfl, hclock httl hnow hd⟩
  | rewritten hshadowed _ => exact absurd hshadowed (by simp)
  | unreleased _ | released _ => exact absurd hop (by simp)

section

variable (hb : d.backend.shadows d.table = false) (hclock : d.clock.Advances step)
  (httl : step ≤ d.backend.boundTtl ttl)

include hb hclock httl

omit [DecidableEq ι] in
theorem Deployment.Grants.live (h : d.Grants ttl time now v t') :
    ∃ r, t'.row? v.key = some r ∧ now < r.deadline := by
  obtain ⟨op, r, t, n, hop, hof, heff, hn⟩ := h.counted
  have row := (hof.acts (by rcases hop with rfl | rfl <;> simp) heff).row
  rw [hb, h.ttl] at row
  exact row.live hop hn hclock httl h.now

omit [DecidableEq ι] in
theorem Deployment.Grants.refused (h : d.Grants ttl time now v t') {v₂ : LeaseValues} {r₂ : Request}
    {n₂ : Nat} {t₂ : Table δ} (hof : Request.IsOf d.backend d.table .acquire v₂ r₂)
    (hkey : v₂.key = v.key) (hnames : ∀ r, t'.row? v.key = some r → ¬ v₂.Names r.token)
    (heff : r₂.effect (d.clock.moment time) t' = .ok (n₂, t₂)) : n₂ = 0 ∧ t₂.row? = t'.row? := by
  obtain ⟨r, hr, hlive⟩ := h.live hb hclock httl
  have acts := hof.acts (by simp) heff
  have row := acts.row
  rw [hkey, hr] at row
  rcases row.unnamed (hnames r hr) with ⟨rfl, -⟩ | ⟨-, hexp⟩
  · exact ⟨rfl, acts.row?_of_zero⟩
  · -- a row that is live at this instant has not expired at it
    obtain ⟨now', hnow', hlate⟩ := Row.isExpired_iff.mp hexp
    obtain rfl := Option.some.inj (h.now.symm.trans hnow')
    exact absurd hlive hlate

namespace System

variable {rules : Rules} {s : System ι δ} {i j : ι} {later mid earlier : List (Entry ι δ)}
  {e e' : Entry ι δ} {now' : δ}

/-- A claim that counted wrote a deadline after its instant. -/
theorem Reachable.wrote_of_claimed (h : Reachable d rules s) (hlog : s.log = later ++ e :: earlier)
    (he : e.Claimed i) (hbinds : s.BindsTtl e (d.backend.boundTtl ttl))
    (hnow : (d.clock.moment e.time).now = some now) : ∃ deadline, e.Wrote i deadline ∧ now < deadline := by
  obtain ⟨s₁, n, x, hr₁, hx, hfate, -, hafter, hgrows⟩ := h.effect_of_log hlog
  obtain ⟨k, t, outcome, heff, -, hexec⟩ := hr₁.sound.effect_cases hx
  rw [hexec] at hafter
  obtain rfl := (List.cons.inj hafter).1
  obtain ⟨howner, hop, hk⟩ := he
  cases heff with
  | failed => exact absurd hk (Nat.lt_irrefl 0)
  | purged hnone _ _ => exact absurd (hnone.symm.trans howner) (by simp)
  | @acted i' v _ _ hi hof hkey hv _ acts =>
      obtain rfl := Option.some.inj (howner.symm.trans hi)
      have hop : x.operation = .acquire := hop
      -- the statement keeps its request, so it bound this time to live
      obtain ⟨y, hy, hbound⟩ := hbinds
      obtain ⟨z, hz⟩ := getElem?_execute (d := d) hx
      obtain ⟨y', hy', hlater⟩ := hgrows.issued n _ hz
      obtain rfl := Option.some.inj (hy'.symm.trans hy)
      have request : y'.request = x.request := hlater.request
      have hvttl : d.backend.boundTtl v.ttl = d.backend.boundTtl ttl := by
        rw [request, hof.ttl?_eq (Or.inl hop)] at hbound
        exact Option.some.inj hbound
      have row := acts.row
      rw [hb, hvttl, hkey] at row
      obtain ⟨r, hr, hlive⟩ := row.live (Or.inl hop) hk hclock httl hnow
      refine ⟨r.deadline, ⟨howner, Or.inl hop, hk, r, ?_, rfl⟩, hlive⟩
      show x.owner.bind _ = some r
      rw [hi, Option.bind_some, hr]

/-- **Claims of two handles count at different instants**, unless the first handle has changed the row
in between. -/
theorem Reachable.exclusive (h : Reachable d rules s)
    (hlog : s.log = later ++ e' :: (mid ++ e :: earlier)) (he : e.Claimed i)
    (hbinds : s.BindsTtl e (d.backend.boundTtl ttl)) (he' : e'.Claimed j) (hij : j ≠ i)
    (hkey : d.key j = d.key i) (quiet : ∀ x ∈ mid, x.owner = some i → x.affected = 0)
    (hnow : (d.clock.moment e.time).now = some now)
    (hnow' : (d.clock.moment e'.time).now = some now') : now ≠ now' := by
  have split : s.log = (later ++ e' :: mid) ++ e :: earlier := by
    rw [hlog, List.append_assoc, List.cons_append]
  obtain ⟨deadline, hwrote, hlive⟩ := h.wrote_of_claimed hb hclock httl split he hbinds hnow
  obtain ⟨s₁, n, x, hr₁, hx, -, hbefore, hafter, -⟩ := h.effect_of_log hlog
  have stands : Stands d s₁ i deadline := hr₁.stands hbefore hwrote quiet
  obtain ⟨htime, hpassed⟩ :=
    passed_of_claimed hr₁.sound hx stands (hbefore ▸ hafter) he' hij hkey
  have late : deadline ≤ now' := hpassed.le (htime ▸ hnow')
  rintro rfl
  exact absurd hlive (not_lt.mpr late)

end System

/-- **From a step of the clock on**, every grant is live. -/
theorem Deployment.grantsLive (hstep : 0 < step) : d.GrantsLive ttl where
  bound := Int.le_trans hstep httl
  live h := h.live hb hclock httl
  refused h := h.refused hb hclock httl
  exclusive h := fun hlog => h.exclusive hb hclock httl hlog

end

end

/-! ## Grants that are not live -/

section

variable {ι δ : Type} [DecidableEq ι] [LinearOrder δ] {d : Deployment ι δ} {ttl : Duration} {time : Int}
  {now : δ}

omit [DecidableEq ι] in
/-- Where the deadline is now, a claim of a key that nobody has counts. -/
theorem Deployment.grants_of_due (hs : d.backend.shadows d.table = false)
    (hnow : (d.clock.moment time).now = some now)
    (hd : (d.clock.moment time).after (d.backend.boundTtl ttl) = some now) :
    ∃ v t', d.Grants ttl time now v t' ∧ ∃ r, t'.row? v.key = some r ∧ r.deadline = now := by
  obtain ⟨r, t', hof, heff, hrow⟩ :=
    Backend.exists_claim (v := secondClaim ttl) ∅ hs hd (Table.row?_empty _)
  exact ⟨secondClaim ttl, t', ⟨hnow, rfl, _, r, ∅, 1, Or.inl rfl, hof, heff, Nat.one_pos⟩, _, hrow, rfl⟩

/-- Where the deadline is now, a grant has expired as soon as it is made. -/
theorem Deployment.not_grantsLive_of_due (hs : d.backend.shadows d.table = false)
    (hnow : (d.clock.moment time).now = some now)
    (hd : (d.clock.moment time).after (d.backend.boundTtl ttl) = some now) : ¬ d.GrantsLive ttl := by
  intro live
  obtain ⟨v, t', hgrants, r, hr, due⟩ := Deployment.grants_of_due hs hnow hd
  obtain ⟨r', hr', hlive⟩ := live.live hgrants
  obtain rfl := Option.some.inj (hr.symm.trans hr')
  exact absurd due hlive.ne'

end

/-- Handles for one key, and a clock that ticks once in a bound unit, and drops what is left of one. -/
def Deployment.ticking (dialect : Dialect) (table : String) : Deployment Unit Int :=
  .uniform dialect table (.ticking dialect.backend.resolution) fun _ => "job"

/-- A time to live that is bound as less than a tick leads to a deadline of now. -/
theorem ticking_due {dialect : Dialect} {table : String} {ttl : Duration}
    (hshort : dialect.backend.boundTtl ttl < dialect.backend.resolution) :
    ((Deployment.ticking dialect table).clock.moment 0).after (dialect.backend.boundTtl ttl) = some 0 := by
  have nothing : dialect.backend.boundTtl ttl / dialect.backend.resolution = 0 :=
    Int.ediv_eq_zero_of_lt (dialect.backend.boundTtl_nonneg ttl) hshort
  show some (0 + dialect.backend.boundTtl ttl / dialect.backend.resolution) = some 0
  rw [nothing]
  rfl

/-- In a table that shadows the proposed row a claim counts and leaves an expired row. -/
theorem grants_of_shadows {dialect : Dialect} {table : String} (ttl : Duration)
    (hs : dialect.backend.shadows table = true) :
    (Deployment.ticking dialect table).Grants ttl 1 1 (secondClaim ttl) leftover := by
  obtain ⟨backend, shadowed⟩ := Bool.and_eq_true_iff.mp hs
  have sqlite : dialect.backend = .sqlite := of_decide_eq_true backend
  have hof : Request.IsOf dialect.backend table .acquire (secondClaim ttl)
      ⟨sqliteClaim table, (sqliteClaim table).bind (secondClaim ttl), none⟩ := by
    rw [sqlite]
    exact .claim (List.mem_singleton_self _)
  exact ⟨rfl, rfl, _, _, leftover, 1, Or.inl rfl, hof,
    sqliteClaim_leftover shadowed ttl none rfl rfl, Nat.one_pos⟩

/-- **Which times to live give live grants**, in every deployment on a table whose clock moves on:
those that are bound as a tick at least, in a table that does not shadow the proposed row. For SQLite
this is a law about all clocks that tick in milliseconds, and a shorter time to live fails at one that
drops what is left of a millisecond. SQLite's own clock rounds to the nearest one, so there leases are
live from 760 microseconds on (`Sqlite.grantsLive`), and up to 240 they are not
(`Sqlite.not_grantsLive`). What lies between is left open: near the half of a millisecond the roundings
decide, and they differ from instant to instant. -/
theorem grantsLive_iff (dialect : Dialect) (table : String) (ttl : Duration) :
    (∀ (ι δ : Type) [DecidableEq ι] [LinearOrder δ] (d : Deployment ι δ),
      d.backend = dialect.backend → d.table = table → d.clock.Advances d.backend.resolution →
      d.GrantsLive ttl) ↔
    dialect.backend.shadows table = false ∧ dialect.backend.shortestTtl.nanos ≤ ttl.nanos := by
  rw [← Backend.resolution_le_boundTtl]
  constructor
  · intro h
    have hclock : (Clock.ticking dialect.backend.resolution).Advances dialect.backend.resolution :=
      Clock.ticking_advances dialect.backend.resolution_pos
    have live := h Unit Int (.ticking dialect table) rfl rfl hclock
    by_contra hnot
    rw [not_and_or, Bool.not_eq_false, not_le] at hnot
    by_cases hs : dialect.backend.shadows table = true
    · obtain ⟨r, hr, hlive⟩ := live.live (grants_of_shadows ttl hs)
      obtain rfl := Option.some.inj hr
      exact absurd hlive (by decide)
    · have hshort := hnot.resolve_left hs
      exact Deployment.not_grantsLive_of_due (Bool.not_eq_true _ ▸ hs) rfl (ticking_due hshort) live
  · rintro ⟨hs, httl⟩ ι δ _ _ d hback rfl hclock
    exact Deployment.grantsLive (hback ▸ hs) hclock (hback ▸ httl) d.backend.resolution_pos

end LeaseLock
