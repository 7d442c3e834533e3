/-
# LeaseLock.Proofs.ForeignRow -- a handle and the rows of others

No row carries the empty text, which is sent for an absent token, and no handle sends a token of
another. So a handle cannot touch the rows of other keys, and it cannot touch the row of its own key
while this carries a token that it never minted, whatever it holds or is unsure of: a release and an
extension report a lost lease, and a claim reports contention, unless the row has expired. Without a
time to live nothing is sent at all; then the time to live is what the handle reports. And where the
database cannot compute a deadline for the time to live of a claim, the claim may fail, but it still
leaves the row alone.
-/
import LeaseLock.Proofs.MutualExclusion
import LeaseLock.Proofs.Uninterrupted

namespace LeaseLock

section

variable {δ : Type} [LinearOrder δ]

/-- **A row repels a handle**: the calls of the handle that have the table to themselves change no row,
and say so. A claim is held off as long as the row has not expired, and it can say so where a deadline
can be computed for it. Without a time to live a call is over before it has sent anything, also where
the row has expired. -/
structure Handle.Repelled (h : Handle) (m : Manager) (cause : Violation → Fault) (w : Solo δ)
    (r : Row δ) : Prop where
  release :
    let out := (h.release m).run (Solo.serve cause) w
    out.1.rows = w.rows ∧ out.2.result = .error (.lostLease h.key)
  extend : ∀ ttl,
    let out := (h.extend m ttl).run (Solo.serve cause) w
    out.1.rows = w.rows ∧
      out.2.result = .error (if ttl.isZero then .config (.invalidTtl ttl) else .lostLease h.key)
  acquire : ∀ fresh ttl, fresh ≠ r.token → ¬ r.isExpired w.moments.head →
    let out := (h.acquire m fresh ttl).run (Solo.serve cause) w
    out.1.rows = w.rows ∧ ((ttl.isZero = false → w.Computes (m.dialect.backend.boundTtl ttl)) →
      out.2.result = .error (if ttl.isZero then .config (.invalidTtl ttl) else .contention h.key))
  silent : ∀ fresh ttl, ttl.isZero →
    h.acquire m fresh ttl = .done h (.error (.config (.invalidTtl ttl))) [] ∧
      h.extend m ttl = .done h (.error (.config (.invalidTtl ttl))) []

/-- A handle is repelled by every row whose token it does not know. -/
theorem Handle.repelled_of_not_tracks {h : Handle} {m : Manager} (cause : Violation → Fault)
    {w : Solo δ} {r : Row δ} (hrow : w.rows h.key = some r) (hne : r.token ≠ "")
    (hT : ¬ h.Tracks r.token) : h.Repelled m cause w r where
  release := ((h.release_meets hrow hne).2 hT).symm
  extend ttl := by
    intro out
    cases httl : ttl.isZero with
    | true => simp only [out, h.extend_of_isZero httl, Call.run, if_true, and_self]
    | false => exact ((h.extend_meets hrow hne httl).2 hT).symm
  acquire fresh ttl hfresh hlive := by
    intro out
    refine ⟨h.acquire_spares hrow hne hfresh hlive hT, fun hd => ?_⟩
    cases httl : ttl.isZero with
    | true => simp only [out, h.acquire_of_isZero httl, Call.run, if_true]
    | false => exact (h.acquire_meets hrow hne hfresh httl (hd httl)).2 hlive hT
  silent fresh ttl httl := ⟨h.acquire_of_isZero httl m fresh, h.extend_of_isZero httl m⟩

end

namespace System

section

variable {ι δ : Type} [LinearOrder δ] {d : Deployment ι δ} {s : System ι δ} {i : ι}

/-- A statement of a handle leaves the rows of all other keys alone. -/
theorem Effect.elsewhere {x : Issued ι} {n : Nat} {t : Table δ} (h : Effect d s x n t)
    (hx : x.owner = some i) {k : String} (hk : k ≠ d.key i) : t.row? k = s.table.row? k := by
  cases h with
  | failed => rfl
  | purged hnone _ _ => exact absurd (hnone.symm.trans hx) (by simp)
  | acted hj _ hkey _ _ acts =>
      obtain rfl := Option.some.inj (hx.symm.trans hj)
      exact acts.others k (hkey ▸ hk)

theorem Sound.nonempty_token (h : s.Sound d) {k : String} {r : Row δ}
    (hr : s.table.row? k = some r) : r.token ≠ "" := by
  obtain ⟨j, -, hT⟩ := h.rows hr
  intro hempty
  exact h.nonempty j (hempty ▸ hT)

/-- A handle tracks no tokens but its own. -/
theorem Sound.mints_of_tracks (h : s.Sound d) {handle : Handle}
    {last : Option (Operation × Except LockError Unit)} (hc : s.clients i = .resting handle last)
    {T : Token} (hT : handle.Tracks T) : s.Mints i T := by
  have within := h.within hc
  rcases hT with hT | hT
  · exact within.token T hT
  · exact within.unconfirmed T hT

end

variable {ι δ : Type} [DecidableEq ι] [LinearOrder δ] {d : Deployment ι δ} {rules : Rules}
  {s : System ι δ} {i : ι}

omit [DecidableEq ι] [LinearOrder δ] in
/-- A move runs no statement but those of the handle. -/
def RunsOwn (s : System ι δ) (i : ι) : Move ι → Prop
  | .effect n => ∀ x, s.issued[n]? = some x → x.owner = some i
  | _ => True

/-- **A harmless handle**: no placeholder of an absent token can match a row; what the handle does
leaves the rows of other keys as they were; and at rest it is repelled by a row of its key that carries
a token that it never minted, at all moments that may come. -/
structure Harmless (d : Deployment ι δ) (rules : Rules) (s : System ι δ) (i : ι) : Prop where
  nonempty : ∀ k r, s.table.row? k = some r → r.token ≠ ""
  elsewhere : ∀ e s', s.RunsOwn i e → s.step d rules e = some s' →
    ∀ k, k ≠ d.key i → s'.table.row? k = s.table.row? k
  foreign : ∀ h last r, s.clients i = .resting h last → s.table.row? (d.key i) = some r →
    ¬ s.Mints i r.token → ∀ (cause : Violation → Fault) (moments : Stream' (Moment δ)),
    h.key = d.key i ∧ h.Repelled (d.manager i) cause ⟨moments, s.table⟩ r

theorem Sound.elsewhere (h : s.Sound d) {e : Move ι} {s' : System ι δ} (he : s.RunsOwn i e)
    (hs : s.step d rules e = some s') {k : String} (hk : k ≠ d.key i) :
    s'.table.row? k = s.table.row? k := by
  cases step_cases hs with
  | effect hx _ _ =>
      obtain ⟨n, t, outcome, heff, -, hexec⟩ := h.effect_cases hx
      rw [hexec]
      exact heff.elsewhere (he _ hx) hk
  | acquire _ _ _ => rw [proceed_table]
  | extend _ | release _ | reply _ _ => rw [proceed_table]
  | purge _ | drop _ _ | tick _ => rfl

/-- **Every handle is harmless** in every system that a run reaches, whatever the rules of the run. -/
theorem Reachable.harmless (h : Reachable d rules s) (i : ι) : s.Harmless d rules i where
  nonempty _ _ hr := h.sound.nonempty_token hr
  elsewhere _ _ he hs _ hk := h.sound.elsewhere he hs hk
  foreign handle last r hc hr hforeign cause moments := by
    have key : handle.key = d.key i := (h.sound.within hc).key_eq
    have untracked : ¬ handle.Tracks r.token := fun hT => hforeign (h.sound.mints_of_tracks hc hT)
    have meets : (Solo.mk moments s.table).rows handle.key = some r := key ▸ hr
    exact ⟨key, Handle.repelled_of_not_tracks cause meets (h.sound.nonempty_token hr) untracked⟩

/-- One handle acquires the key, and another one takes it over after the end of the lease. -/
def succession : List (Move Duellist) :=
  [.acquire .holder "A" ⟨10000⟩, .effect 0, .reply .holder (.answered (.ok 0)), .effect 1,
    .reply .holder (.answered (.ok 1)), .tick 20, .acquire .rival "B" ⟨60000⟩, .effect 2,
    .reply .rival (.answered (.ok 1))]

/-- The first handle still believes in its lease, and is repelled by the row of its successor. -/
theorem stale_handle_harmless :
    ∃ s : System Duellist Int, play (.duel .mysql "locks") .anything succession = some s ∧
      s.clients .holder = .resting { key := "job", token := some "A" } (some (.acquire, .ok ())) ∧
      s.table.row? "job" = some ⟨"job", "B", 80⟩ ∧ ¬ s.Mints .holder "B" ∧
      s.Harmless (.duel .mysql "locks") .anything .holder := by
  have ends : (play (.duel .mysql "locks") .anything succession).map (fun s =>
      (s.clients .holder, s.table.row? "job", s.minted)) =
        some (.resting { key := "job", token := some "A" } (some (.acquire, .ok ())),
          some ⟨"job", "B", 80⟩, [(.rival, "B"), (.holder, "A")]) := by rfl
  obtain ⟨s, hrun, hends⟩ := Option.map_eq_some_iff.mp ends
  obtain ⟨hclient, hrow, hminted⟩ : _ ∧ _ ∧ s.minted = _ := by simpa using hends
  refine ⟨s, hrun, hclient, hrow, ?_, (reachable_play hrun).harmless .holder⟩
  rw [Mints, hminted]
  decide

/-- A handle that never held the key extends the lease of another by no time at all: it does not
report a lost lease. -/
theorem extension_by_nothing :
    ∃ (s : System Duellist Int) (r : Row Int), play (.duel .sqlite "locks") .anything
        [.acquire .holder "A" ⟨60000⟩, .effect 0, .reply .holder (.answered (.ok 1))] = some s ∧
      s.clients .rival = .resting { key := "job" } none ∧
      s.table.row? "job" = some r ∧ ¬ s.Mints .rival r.token ∧
      (((({ key := "job" } : Handle).extend ⟨.sqlite, "locks", none⟩ .zero).run
        (Solo.serve fun _ => .bare "") ⟨Stream'.const (Clock.integral.moment 0), s.table⟩).2.result =
          .error (.config (.invalidTtl .zero))) := by
  refine ⟨_, ⟨"job", "A", 60⟩, rfl, rfl, rfl, ?_, rfl⟩
  show ¬ (Duellist.rival, "A") ∈ [(Duellist.holder, "A")]
  decide

end System

end LeaseLock
