/-
# LeaseLock.Proofs.Uninterrupted -- calls that have the table to themselves

A call is uninterrupted when each of its statements is executed and answered and no other statement
runs in between. Time may pass from one statement to the next, so the statements run at a stream of
moments. What such a call comes to depends on the row of its key alone: whether a claim may overwrite
it, whether it is the handle's own, and whether it is live. This holds in every table, also in one
whose name shadows the proposed row of a claim.
-/
import LeaseLock.Proofs.LeaseTable
import LeaseLock.Proofs.Tracking
import LeaseLock.Proofs.Transcript

namespace LeaseLock

/-! ## One user at a time -/

/-- **A table with one user**, and the moments at which the next statements will run. -/
structure Solo (δ : Type) where
  moments : Stream' (Moment δ)
  table : Table δ

section

variable {δ : Type} [LinearOrder δ]

namespace Solo

/-- The row of each key. -/
def rows (w : Solo δ) : Leases δ := w.table.row?

/-- A statement runs at the next moment and is answered. -/
def serve (cause : Violation → Fault) (w : Solo δ) (r : Request) : Solo δ × Reply :=
  let (table, reply) := w.table.answer cause w.moments.head r
  (⟨w.moments.tail, table⟩, reply)

/-- Every statement that binds this time to live can be carried out. -/
def Computes (w : Solo δ) (ttl : Int) : Prop := ∀ k, ∃ d, (w.moments.get k).after ttl = some d

variable {cause : Violation → Fault} {w : Solo δ} {r : Request} {n : Nat} {t : Table δ}

theorem serve_ok (h : r.effect w.moments.head w.table = .ok (n, t)) :
    w.serve cause r = (⟨w.moments.tail, t⟩, .answered (.ok n)) := by
  rw [serve, Table.answer_ok h]

theorem serve_duplicateKey (h : r.effect w.moments.head w.table = .error .duplicateKey) :
    w.serve cause r = (⟨w.moments.tail, w.table⟩,
      .answered (.error (.duplicateKey (cause .duplicateKey)))) := by
  rw [serve, Table.answer_duplicateKey h]

/-- A statement that changes no row where it is carried out changes none. -/
theorem rows_serve (cause : Violation → Fault)
    (h : ∀ n t, r.effect w.moments.head w.table = .ok (n, t) → t.row? = w.rows) :
    (w.serve cause r).1.rows = w.rows := by
  cases heff : r.effect w.moments.head w.table with
  | ok p =>
      obtain ⟨n, t⟩ := p
      rw [serve_ok heff]
      exact h n t heff
  | error e =>
      have same : (w.table.answer cause w.moments.head r).1 = w.table := by
        rw [Table.answer, heff]
        cases e <;> rfl
      show (w.table.answer cause w.moments.head r).1.row? = w.table.row?
      rw [same]

end Solo

/-! ## What a statement makes of the row that it meets -/

namespace RowEffect

variable {shadowed : Bool} {m : Moment δ} {ttl : Int} {v : LeaseValues} {n : Nat} {r : Row δ}
  {new : Option (Row δ)}

/-- A claim counts the row that it meets exactly if it may overwrite it. -/
theorem claim_counts (h : RowEffect shadowed m ttl v .acquire (some r) n new) :
    n = if r.isClaimable m v then 1 else 0 := by
  generalize hold : some r = old at h
  cases h with
  | refused hc => rw [hc r hold.symm, if_neg (by simp)]
  | taken hc _ => rw [if_pos (hc r hold.symm)]
  | rewritten _ hc =>
      obtain rfl := Option.some.inj hold
      rw [if_pos hc]

/-- An extension counts the row that it meets exactly if it is live and the handle's own. -/
theorem extend_counts (h : RowEffect shadowed m ttl v .extend (some r) n new) :
    n = if r.isOwn v && r.isLive m then 1 else 0 := by
  generalize hold : some r = old at h
  cases h with
  | unextended hc => rw [hc r hold.symm, if_neg (by simp)]
  | extended own live _ =>
      obtain rfl := Option.some.inj hold
      rw [own, live, Bool.and_self, if_pos rfl]

/-- A release counts the row that it meets exactly if it is the handle's own. -/
theorem release_counts (h : RowEffect shadowed m ttl v .release (some r) n new) :
    n = if r.isOwn v then 1 else 0 := by
  generalize hold : some r = old at h
  cases h with
  | unreleased hc => rw [hc r hold.symm, if_neg (by simp)]
  | released own =>
      obtain rfl := Option.some.inj hold
      rw [if_pos own]

end RowEffect

/-- A claim by one statement is carried out, also in a table that shadows the proposed row. -/
theorem Backend.single_runs {b : Backend} {table : String} {s : Statement}
    (hplan : b.claim table = .single s) {v : LeaseValues} (limit : Option Duration) {m : Moment δ}
    {d : δ} (hd : m.after (b.boundTtl v.ttl) = some d) (t : Table δ) :
    ∃ n t', Request.effect ⟨s, s.bind v, limit⟩ m t = .ok (n, t') := by
  cases hs : b.shadows table with
  | false =>
      obtain ⟨n, t', heff, -⟩ := single_counts limit t hplan hs hd
      exact ⟨n, t', heff⟩
  | true =>
      obtain ⟨hb, hname⟩ := Bool.and_eq_true_iff.mp hs
      obtain rfl : b = .sqlite := of_decide_eq_true hb
      obtain rfl : sqliteClaim table = s := ClaimPlan.single.inj hplan
      have heff := sqliteClaim_effect hname v limit m t hd
      cases hrow : t.row? v.key with
      | none => exact ⟨_, _, heff.trans (by rw [hrow])⟩
      | some old => exact ⟨_, _, heff.trans (by rw [hrow])⟩

/-- An extension that matches no row changes nothing, and needs no deadline for it. -/
theorem Command.prolong_unmatched {k x y ttl : Slot} {v : LeaseValues} {args : List Argument}
    {m : Moment δ} {t : Table δ} (hk : Argument.textAt? args k = some v.key)
    (hx : Argument.textAt? args x = some v.token)
    (hy : Argument.textAt? args y = some v.unconfirmedToken)
    (h : ∀ r, t.row? v.key = some r → (r.isOwn v && r.isLive m) = false) :
    (Command.prolong ttl (.and (.owned k x y) .live)).effect m args t = .ok (0, t) := by
  have picks : ∀ r : Row δ, (Condition.and (.owned k x y) .live).holds m args r =
      (decide (r.key = v.key) && (r.isOwn v && r.isLive m)) := by
    intro r
    rw [Condition.holds, holds_owned hk hx hy, Bool.and_assoc]
    rfl
  have none_picked : t.count (fun r => decide (r.key = v.key) && (r.isOwn v && r.isLive m)) = 0 := by
    rw [Table.count_of_key fun _ => Row.key_of_picked]
    cases hrow : t.row? v.key with
    | none => rfl
    | some r => simp [h r hrow]
  simp only [effect, picks, none_picked, if_true]

theorem Backend.extend_unmatched (b : Backend) (table : String) {v : LeaseValues}
    (limit : Option Duration) {m : Moment δ} {t : Table δ}
    (h : ∀ r, t.row? v.key = some r → (r.isOwn v && r.isLive m) = false) :
    Request.effect ⟨b.extend table, (b.extend table).bind v, limit⟩ m t = .ok (0, t) := by
  cases b <;> exact Command.prolong_unmatched rfl rfl rfl h

/-- An insert that is carried out has met a free key. -/
theorem Command.free_of_insert {key token ttl : Slot} {v : LeaseValues} {b : Int}
    {args : List Argument} {m : Moment δ} {t t' : Table δ} {n : Nat}
    (hk : Argument.textAt? args key = some v.key) (ht : Argument.textAt? args token = some v.token)
    (hb : Argument.intAt? args ttl = some b)
    (h : (Command.insert key token ttl).effect m args t = .ok (n, t')) : t.row? v.key = none := by
  simp only [effect] at h
  cases hr : newRow m args key token ttl with
  | error e => simp [hr, bind, Except.bind] at h
  | ok row =>
      obtain ⟨d, -, rfl⟩ := newRow_eq_ok hk ht hb hr
      simp only [hr, bind, Except.bind] at h
      by_contra hsome
      have taken : t.insert? ⟨v.key, v.token, d⟩ = none :=
        Table.insert?_eq_none_iff.mpr (Option.ne_none_iff_exists'.mp hsome)
      simp [taken, throw, throwThe, MonadExceptOf.throw] at h

theorem Backend.free_of_insert {b : Backend} {table : String} {update insert : Statement}
    (hplan : b.claim table = .updateThenInsert update insert) {v : LeaseValues}
    {limit : Option Duration} {m : Moment δ} {t t' : Table δ} {n : Nat}
    (h : Request.effect ⟨insert, insert.bind v, limit⟩ m t = .ok (n, t')) : t.row? v.key = none := by
  cases b with
  | mysql =>
      obtain ⟨rfl, rfl⟩ := ClaimPlan.updateThenInsert.inj hplan
      exact Command.free_of_insert (v := v) rfl rfl rfl h
  | sqlite | postgres | mssql => exact absurd hplan (by simp [claim])

/-! ## Calls of a manager -/

section

variable {M : Manager} (cause : Violation → Fault) {v : LeaseValues} {w : Solo δ} {r : Row δ}
  {σ α : Type} (held : σ)

omit cause held in
/-- A statement of a claim counts the row that it meets if it may overwrite it, and otherwise leaves all
rows as they are. -/
theorem Manager.claim_counts (hrow : w.rows v.key = some r) {s : Statement}
    (hs : s ∈ M.claimPlan.statements) {n : Nat} {t : Table δ}
    (heff : (M.request s v).effect w.moments.head w.table = .ok (n, t)) :
    (n = if r.isClaimable w.moments.head v then 1 else 0) ∧ (n = 0 → t.row? = w.rows) := by
  have isOf : Request.IsOf M.dialect.backend M.tableName .acquire v (M.request s v) := .claim hs
  have acts := isOf.acts (by simp) heff
  have row := acts.row
  rw [show w.table.row? v.key = some r from hrow] at row
  refine ⟨row.claim_counts, ?_⟩
  rintro rfl
  exact acts.row?_of_zero

/-- **A claim that meets a row** gets it exactly if it may overwrite it at the first statement. -/
theorem Manager.claim_meets (hrow : w.rows v.key = some r)
    (hd : w.Computes (M.dialect.backend.boundTtl v.ttl))
    (next : Except TransportError Bool → Call σ α) :
    ∃ rows, (M.claim v held next).Becomes (Solo.serve cause) Solo.rows w
      (next (.ok (r.isClaimable w.moments.head v))) rows := by
  obtain ⟨d, hd₀⟩ := hd 0
  rw [Manager.claim]
  cases hplan : M.claimPlan with
  | single s =>
      obtain ⟨n, t, heff⟩ := Backend.single_runs hplan M.timeout hd₀ w.table
      obtain ⟨hn, -⟩ := claim_counts hrow (by simp [hplan, ClaimPlan.statements]) heff
      have verdict : decide (0 < n) = r.isClaimable w.moments.head v := by
        rw [hn]
        cases r.isClaimable w.moments.head v <;> rfl
      refine ⟨t.row?, .ask (Solo.serve_ok heff) ?_⟩
      show (next (.ok (decide (0 < n)))).Becomes _ _ _ _ _
      rw [verdict]
      exact .refl
  | updateThenInsert update insert =>
      obtain ⟨n, t, heff, -⟩ := Backend.update_counts M.timeout w.table hplan hd₀
      obtain ⟨hn, hsame⟩ := claim_counts hrow (by simp [hplan, ClaimPlan.statements]) heff
      cases hc : r.isClaimable w.moments.head v with
      | true =>
          obtain rfl : n = 1 := by rw [hn, hc, if_pos rfl]
          exact ⟨t.row?, .ask (Solo.serve_ok heff) .refl⟩
      | false =>
          -- the update has passed the row over, so the insert meets it
          obtain rfl : n = 0 := by rw [hn, hc, if_neg (by simp)]
          obtain ⟨d', hd₁⟩ := hd 1
          have fails := (Backend.insert_counts M.timeout t hplan hd₁).2 r
            ((congrFun (hsame rfl) v.key).trans hrow)
          have served : (Solo.mk w.moments.tail t).serve cause (M.request insert v) =
              (⟨w.moments.tail.tail, t⟩, .answered (.error (.duplicateKey (cause .duplicateKey)))) :=
            Solo.serve_duplicateKey fails
          exact ⟨t.row?, .ask (Solo.serve_ok heff) (.ask served .refl)⟩

/-- **A claim that may not overwrite the row** that it meets changes none, also where its deadline
cannot be computed. -/
theorem Manager.claim_spares (hrow : w.rows v.key = some r)
    (hshut : r.isClaimable w.moments.head v = false)
    {next : Except TransportError Bool → Call σ α} (hnext : ∀ verdict, (next verdict).IsDone) :
    ((M.claim v held next).run (Solo.serve cause) w).1.rows = w.rows := by
  have ended : ∀ verdict (w' : Solo δ), ((next verdict).run (Solo.serve cause) w').1 = w' :=
    fun verdict w' => (hnext verdict).run_fst _ w'
  have passes : ∀ s ∈ M.claimPlan.statements, (w.serve cause (M.request s v)).1.rows = w.rows := by
    intro s hs
    apply Solo.rows_serve
    intro n t heff
    obtain ⟨hn, hsame⟩ := claim_counts hrow hs heff
    apply hsame
    rw [hn, hshut, if_neg (by simp)]
  rw [Manager.claim]
  cases hplan : M.claimPlan with
  | single s =>
      have first := passes s (by simp [hplan, ClaimPlan.statements])
      simp only [Manager.send, Call.run, ended]
      exact first
  | updateThenInsert update insert =>
      have first := passes update (by simp [hplan, ClaimPlan.statements])
      simp only [Manager.send, Call.run]
      split
      · rw [ended]
        exact first
      · split
        · rw [ended]
          exact first
        · -- the row is still there for the insert
          simp only [Call.run, ended]
          refine (Solo.rows_serve cause fun n t heff => ?_).trans first
          have free := Backend.free_of_insert hplan heff
          exact absurd ((congrFun first v.key).trans hrow) (by rw [Solo.rows, free]; simp)

/-- **An extension that meets a row** counts it if it is live and the handle's own, and otherwise
leaves all rows as they are. -/
theorem Manager.extend_meets (hrow : w.rows v.key = some r)
    (hd : r.isOwn v && r.isLive w.moments.head → w.Computes (M.dialect.backend.boundTtl v.ttl))
    (next : Except TransportError Nat → Call σ α) :
    ∃ rows, (M.send M.extendStatement v held next).Becomes (Solo.serve cause) Solo.rows w
        (next (.ok (if r.isOwn v && r.isLive w.moments.head then 1 else 0))) rows ∧
      ((r.isOwn v && r.isLive w.moments.head) = false → rows = w.rows) := by
  cases hc : r.isOwn v && r.isLive w.moments.head with
  | false =>
      have unmatched : ∀ r', w.table.row? v.key = some r' →
          (r'.isOwn v && r'.isLive w.moments.head) = false := by
        intro r' hr'
        obtain rfl := Option.some.inj (hrow.symm.trans hr')
        exact hc
      have heff := Backend.extend_unmatched M.dialect.backend M.tableName M.timeout unmatched
      refine ⟨w.rows, .ask (Solo.serve_ok heff) ?_, fun _ => rfl⟩
      exact .refl (w := Solo.mk w.moments.tail w.table)
  | true =>
      obtain ⟨d, hd₀⟩ := hd hc 0
      obtain ⟨n, t, heff⟩ : ∃ n t,
          (M.request M.extendStatement v).effect w.moments.head w.table = .ok (n, t) :=
        Backend.extend_counts M.timeout w.table hd₀
      have row := (Request.IsOf.extend.acts (by simp) heff).row
      rw [show w.table.row? v.key = some r from hrow] at row
      obtain rfl : n = 1 := by rw [row.extend_counts, hc, if_pos rfl]
      exact ⟨t.row?, .ask (Solo.serve_ok heff) .refl, by simp⟩

/-- **A release that meets a row** counts it if it is the handle's own, and otherwise leaves all rows
as they are. -/
theorem Manager.release_meets (hrow : w.rows v.key = some r)
    (next : Except TransportError Nat → Call σ α) :
    ∃ rows, (M.send M.releaseStatement v held next).Becomes (Solo.serve cause) Solo.rows w
        (next (.ok (if r.isOwn v then 1 else 0))) rows ∧ (r.isOwn v = false → rows = w.rows) := by
  have isOf : Request.IsOf M.dialect.backend M.tableName .release v
      (M.request M.releaseStatement v) := .release
  obtain ⟨n, t, heff⟩ := isOf.release_effect w.moments.head w.table
  have acts := isOf.acts (by simp) heff
  have row := acts.row
  rw [show w.table.row? v.key = some r from hrow] at row
  have hn := row.release_counts
  refine ⟨t.row?, .ask (Solo.serve_ok heff) ?_, fun hc => ?_⟩
  · rw [← hn]
    exact .refl
  · rw [hc, if_neg (by simp)] at hn
    subst hn
    exact acts.row?_of_zero

end

/-! ## Calls of a handle -/

namespace Handle

variable {h : Handle} {m : Manager} {cause : Violation → Fault} {w : Solo δ} {r : Row δ}
  {fresh : Token} {ttl : Duration}

omit [LinearOrder δ] in
/-- An extension or a release matches a row exactly if the handle tracks its token. -/
theorem isOwn_iff (hne : r.token ≠ "") : r.isOwn (h.ownValues ttl) ↔ h.Tracks r.token := by
  have sent : ∀ o : Option Token, o.getD "" = r.token ↔ o = some r.token := by
    intro o
    cases o with
    | none => simpa using fun e : "" = r.token => hne e.symm
    | some T => simp
  rw [Row.isOwn, Bool.or_eq_true, decide_eq_true_eq, decide_eq_true_eq]
  exact or_congr (sent h.token) (sent h.unconfirmed)

/-- A claim may overwrite a row exactly if the row has expired or the handle tracks its token. -/
theorem isClaimable_iff {moment : Moment δ} (hne : r.token ≠ "") (hfresh : fresh ≠ r.token) :
    r.isClaimable moment (h.claimValues (h.nextToken fresh) ttl) ↔
      r.isExpired moment ∨ h.Tracks r.token := by
  have retried : h.nextToken fresh = r.token ↔ h.unconfirmed = some r.token := by
    unfold nextToken
    cases h.unconfirmed with
    | none => simpa using hfresh
    | some T => simp
  have held : h.token.getD "" = r.token ↔ h.token = some r.token := by
    cases h.token with
    | none => simpa using fun e : "" = r.token => hne e.symm
    | some T => simp
  rw [Row.isClaimable, Bool.or_eq_true, Bool.or_eq_true, decide_eq_true_eq, decide_eq_true_eq]
  exact or_congr Iff.rfl (or_congr held retried)

theorem isIdle_of_tracks {T : Token} (hT : h.Tracks T) : h.isIdle = false := by
  rcases hT with hT | hT <;> simp [isIdle, hT]

/-- **A release that meets a row** deletes it if the handle tracks its token, and otherwise reports a
lost lease. -/
theorem release_meets (hrow : w.rows h.key = some r) (hne : r.token ≠ "") :
    let out := (h.release m).run (Solo.serve cause) w
    (h.Tracks r.token → out.2.result = .ok ()) ∧
      (¬ h.Tracks r.token → out.2.result = .error (.lostLease h.key) ∧ out.1.rows = w.rows) := by
  intro out
  cases hidle : h.isIdle with
  | true =>
      have hout : out = (w, ⟨h, .error (.lostLease h.key), []⟩) := by
        simp only [out, h.release_of_isIdle hidle, Call.run]
      rw [hout]
      refine ⟨fun hT => ?_, fun _ => ⟨rfl, rfl⟩⟩
      exact absurd (hidle.symm.trans (isIdle_of_tracks hT)) (by simp)
  | false =>
      obtain ⟨next, hsend, hmissed, hfound, -⟩ := h.exists_release_answers hidle m
      obtain ⟨rows, ⟨w', hrun, hrows⟩, hsame⟩ := Manager.release_meets (M := m)
        (v := h.ownValues .zero) cause h hrow next
      have hout : out = (next (.ok (if r.isOwn (h.ownValues .zero) then 1 else 0))).run
          (Solo.serve cause) w' := by rw [← hrun, ← hsend]
      rw [hout]
      constructor
      · intro hT
        rw [if_pos ((isOwn_iff hne).mpr hT), hfound 0]
        rfl
      · intro hT
        have foreign : r.isOwn (h.ownValues .zero) = false := by
          simpa using fun hown => hT ((isOwn_iff hne).mp hown)
        rw [foreign, if_neg (by simp), hmissed]
        exact ⟨rfl, hrows.trans (hsame foreign)⟩

/-- **An extension that meets a row** moves its deadline if the row is live and the handle tracks its
token, and reports a lost lease if the handle does not. -/
theorem extend_meets (hrow : w.rows h.key = some r) (hne : r.token ≠ "")
    (httl : ttl.isZero = false) :
    let out := (h.extend m ttl).run (Solo.serve cause) w
    (h.Tracks r.token → r.isLive w.moments.head → w.Computes (m.dialect.backend.boundTtl ttl) →
      out.2.result = .ok ()) ∧
      (¬ h.Tracks r.token → out.2.result = .error (.lostLease h.key) ∧ out.1.rows = w.rows) := by
  intro out
  cases hidle : h.isIdle with
  | true =>
      have hout : out = (w, ⟨h, .error (.lostLease h.key), []⟩) := by
        simp only [out, h.extend_of_isIdle httl hidle, Call.run]
      rw [hout]
      refine ⟨fun hT => ?_, fun _ => ⟨rfl, rfl⟩⟩
      exact absurd (hidle.symm.trans (isIdle_of_tracks hT)) (by simp)
  | false =>
      obtain ⟨next, hsend, hmissed, hfound, -⟩ := h.exists_extend_answers httl hidle m
      constructor
      · intro hT hlive hd
        have own : (r.isOwn (h.ownValues ttl) && r.isLive w.moments.head) = true := by
          rw [(isOwn_iff hne).mpr hT, hlive]
          rfl
        obtain ⟨rows, ⟨w', hrun, -⟩, -⟩ := Manager.extend_meets (M := m)
          (v := h.ownValues ttl) cause h hrow (fun _ => hd) next
        rw [own, if_pos rfl, hfound 0] at hrun
        simp only [out, hsend, hrun, Call.run]
      · intro hT
        have foreign : (r.isOwn (h.ownValues ttl) && r.isLive w.moments.head) = false := by
          have unowned : r.isOwn (h.ownValues ttl) = false := by
            simpa using fun hown => hT ((isOwn_iff hne).mp hown)
          rw [unowned, Bool.false_and]
        obtain ⟨rows, ⟨w', hrun, hrows⟩, hsame⟩ := Manager.extend_meets (M := m)
          (v := h.ownValues ttl) cause h hrow (fun hown => absurd (foreign.symm.trans hown) (by simp)) next
        rw [foreign, if_neg (by simp), hmissed] at hrun
        simp only [out, hsend, hrun, Call.run]
        exact ⟨trivial, hrows.trans (hsame foreign)⟩

/-- **An acquisition that meets a row** takes it if the row has expired or the handle tracks its
token, and otherwise reports contention. -/
theorem acquire_meets (hrow : w.rows h.key = some r) (hne : r.token ≠ "") (hfresh : fresh ≠ r.token)
    (httl : ttl.isZero = false) (hd : w.Computes (m.dialect.backend.boundTtl ttl)) :
    let out := (h.acquire m fresh ttl).run (Solo.serve cause) w
    (r.isExpired w.moments.head ∨ h.Tracks r.token → out.2.result = .ok ()) ∧
      (¬ r.isExpired w.moments.head → ¬ h.Tracks r.token →
        out.2.result = .error (.contention h.key)) := by
  intro out
  obtain ⟨next, hclaim, hwon, hheld, -⟩ := h.exists_acquire_verdicts httl m fresh
  obtain ⟨rows, w', hrun, -⟩ := Manager.claim_meets (M := m)
    (v := h.claimValues (h.nextToken fresh) ttl) cause { h with unconfirmed := none } hrow hd next
  constructor
  · intro hopen
    rw [(isClaimable_iff hne hfresh).mpr hopen, hwon] at hrun
    simp only [out, hclaim, hrun, Call.run]
  · intro hlive hT
    have shut : r.isClaimable w.moments.head (h.claimValues (h.nextToken fresh) ttl) = false := by
      simpa using fun hopen => ((isClaimable_iff hne hfresh).mp hopen).elim hlive hT
    rw [shut, hheld] at hrun
    simp only [out, hclaim, hrun, Call.run]

/-- **An acquisition spares a row** that has not expired and whose token the handle does not track. -/
theorem acquire_spares (hrow : w.rows h.key = some r) (hne : r.token ≠ "") (hfresh : fresh ≠ r.token)
    (hlive : ¬ r.isExpired w.moments.head) (hT : ¬ h.Tracks r.token) :
    ((h.acquire m fresh ttl).run (Solo.serve cause) w).1.rows = w.rows := by
  cases httl : ttl.isZero with
  | true =>
      rw [h.acquire_of_isZero httl]
      rfl
  | false =>
      obtain ⟨next, hclaim, hdone⟩ := h.exists_acquire_isDone httl m fresh
      have shut : r.isClaimable w.moments.head (h.claimValues (h.nextToken fresh) ttl) = false := by
        simpa using fun hopen => ((isClaimable_iff hne hfresh).mp hopen).elim hlive hT
      rw [hclaim]
      exact Manager.claim_spares cause _ hrow shut hdone

end Handle

end

end LeaseLock
