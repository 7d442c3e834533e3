/-
# LeaseLock.Proofs.TwoStepClaim -- a claim by an update and an insert

Where a backend has no statement that claims a key at once, a claim is an update of a row that may be
taken over and then, if there was none, an insert. Other handles may do anything in between. Still the
claim has one moment at which it happens: a claim that succeeds, the effect of the statement that
counted; a claim that is refused, a moment between the two effects at which the key's row was live and
neither of the claim's own tokens was in it.

The row that refuses a claim is there when the update runs, or it appears before the insert runs. In
the second case it is the fresh row of another handle. In the first case it may be a row of the handle
itself, under a token that it has given up: the statement that wrote it was left behind by an earlier
call and took effect late.
-/
import LeaseLock.Proofs.Granting
import LeaseLock.Proofs.LateStatements
import LeaseLock.Proofs.Tracking
import LeaseLock.Proofs.Waiting

namespace LeaseLock

/-! ## What the two statements do -/

section

variable {δ : Type} [LT δ] [DecidableLT δ] {m : Moment δ} {v : LeaseValues} {ttl : Int} {n : Nat}
  {old new : Option (Row δ)}

/-- A claim that counted met a free place or a claimable row, and its own row stands there now. -/
theorem RowEffect.taken_of_counted (h : RowEffect false m ttl v .acquire old n new) (hn : 0 < n) :
    (∀ r, old = some r → r.isClaimable m v) ∧
      ∃ d, m.after ttl = some d ∧ new = some ⟨v.key, v.token, d⟩ := by
  cases h with
  | refused _ => exact absurd hn (Nat.lt_irrefl 0)
  | taken hclaimable hd => exact ⟨hclaimable, _, hd, rfl⟩
  | rewritten hshadowed _ => exact absurd hshadowed (by simp)

/-- A claim that did not count met no row that it may take over. -/
theorem RowEffect.unclaimable_of_zero {shadowed : Bool}
    (h : RowEffect shadowed m ttl v .acquire old 0 new) :
    ∀ r, old = some r → r.isClaimable m v = false := by
  cases h with
  | refused hunclaimable => exact hunclaimable

variable {args : List Argument} {key token slot : Slot} {t t' : Table δ}

/-- An insertion that succeeds counts one row. -/
theorem Command.insert_eq_ok (h : (Command.insert key token slot).effect m args t = .ok (n, t')) :
    n = 1 := by
  simp only [effect, bind, Except.bind] at h
  split at h
  · exact absurd h (by simp)
  · split at h
    · exact (Prod.mk.inj (Except.ok.inj h)).1.symm
    · exact absurd h (by simp [throw, throwThe, MonadExceptOf.throw])

/-- A duplicate key is a row of the key. -/
theorem Command.row_of_duplicateKey (hk : Argument.textAt? args key = some v.key)
    (ht : Argument.textAt? args token = some v.token) (hb : Argument.intAt? args slot = some ttl)
    (h : (Command.insert key token slot).effect m args t = .error .duplicateKey) :
    ∃ r, t.row? v.key = some r := by
  cases hd : m.after ttl with
  | none => simp [effect, newRow, tokenFor, deadlineFor, hk, ht, hb, hd, bind, Except.bind] at h
  | some d =>
      simp only [effect, newRow_of_after hk ht hb hd, bind, Except.bind] at h
      cases hins : t.insert? ⟨v.key, v.token, d⟩ with
      | some t' => simp [hins, pure, Except.pure] at h
      | none => exact Table.insert?_eq_none_iff.mp hins

variable {b : Backend} {table : String} {update insert : Statement} {limit : Option Duration}

theorem Backend.insert_eq_ok (hplan : b.claim table = .updateThenInsert update insert)
    (h : Request.effect ⟨insert, insert.bind v, limit⟩ m t = .ok (n, t')) : n = 1 := by
  cases b with
  | mysql =>
      obtain ⟨rfl, rfl⟩ := ClaimPlan.updateThenInsert.inj hplan
      exact Command.insert_eq_ok h
  | sqlite | postgres | mssql => exact absurd hplan (by simp [claim])

theorem Backend.row_of_duplicateKey (hplan : b.claim table = .updateThenInsert update insert)
    (h : Request.effect ⟨insert, insert.bind v, limit⟩ m t = .error .duplicateKey) :
    ∃ r, t.row? v.key = some r := by
  cases b with
  | mysql =>
      obtain ⟨rfl, rfl⟩ := ClaimPlan.updateThenInsert.inj hplan
      exact Command.row_of_duplicateKey rfl rfl rfl h
  | sqlite | postgres | mssql => exact absurd hplan (by simp [claim])

/-- Two-step claims are not made in a table that shadows the proposed row. -/
theorem Backend.not_shadows_of_twoStep (hplan : b.claim table = .updateThenInsert update insert)
    (other : String) : b.shadows other = false := by
  cases b with
  | mysql => rfl
  | sqlite | postgres | mssql => exact absurd hplan (by simp [claim])

end

/-! ## The course of an acquisition -/

/-- **An acquisition in two steps**: the update, the insert where the update counted nothing, and what
the answers mean. -/
theorem Handle.exists_acquire_twoStep (h : Handle) {ttl : Duration} (httl : ttl.isZero = false)
    {m : Manager} {update insert : Statement} (hplan : m.claimPlan = .updateThenInsert update insert)
    (fresh : Token) :
    ∃ (held : Handle) (first second : Reply → Call Handle (Except LockError Unit)),
      h.acquire m fresh ttl =
        .ask (m.request update (h.claimValues (h.nextToken fresh) ttl)) held first ∧
      (∀ n, ∃ state events, first (.answered (.ok (n + 1))) = .done state (.ok ()) events) ∧
      first (.answered (.ok 0)) =
        .ask (m.request insert (h.claimValues (h.nextToken fresh) ttl)) held second ∧
      (∀ reply, (∀ n, reply ≠ .answered (.ok n)) →
        ∃ state e, first reply = .done state (.error (.transport h.key .acquire e)) []) ∧
      (∀ n, ∃ state events, second (.answered (.ok (n + 1))) = .done state (.ok ()) events) ∧
      (∀ cause, ∃ state, second (.answered (.error (.duplicateKey cause))) =
        .done state (.error (.contention h.key)) []) ∧
      ∀ reply, reply.Lost →
        ∃ state e, second reply = .done state (.error (.transport h.key .acquire e)) [] := by
  unfold acquire Manager.claim
  rw [httl, if_neg (by simp), hplan]
  refine ⟨_, _, _, rfl, fun n => ⟨_, _, rfl⟩, rfl, ?_, fun n => ⟨_, _, rfl⟩, fun cause => ⟨_, rfl⟩, ?_⟩
  · intro reply hreply
    rcases reply with (e | n) | limit
    · exact ⟨_, _, rfl⟩
    · exact absurd rfl (hreply n)
    · exact ⟨_, _, rfl⟩
  · intro reply hlost
    obtain ⟨e, he⟩ := hlost.insertedRows
    exact ⟨_, e, by dsimp only; rw [he]; rfl⟩

/-- The values of an acquisition: a claim with the unconfirmed token, or with a fresh one. -/
abbrev Handle.attempt (h : Handle) (fresh : Token) (ttl : Duration) : LeaseValues :=
  h.claimValues (h.nextToken fresh) ttl

namespace System

section

variable {ι δ : Type} [DecidableEq ι] [LinearOrder δ]

/-- A statement of a claim that has just been issued. -/
def claimOf (d : Deployment ι δ) (i : ι) (st : Statement) (v : LeaseValues) : Issued ι :=
  ⟨some i, .acquire, (d.manager i).request st v, .inFlight⟩

/-- **An acquisition** from `s` to `s'`: none of the handle's earlier statements is under way when it
begins, and it has returned at the end. -/
structure Attempt (d : Deployment ι δ) (rules : Rules) (i : ι) (h : Handle) (fresh : Token)
    (ttl : Duration) (result : Except LockError Unit) (s begun s' : System ι δ) : Prop where
  reachable : Reachable d rules s
  resting : ∃ last, s.clients i = .resting h last
  alone : ∀ op n, ¬ s.UnderWay i op n
  begins : s.step d rules (.acquire i fresh ttl) = some begun
  goes : begun.Idles d rules i s'
  returned : ∃ h', s'.clients i = .resting h' (some (.acquire, result))

/-- Whatever others claim from `s` to `s'` lasts for one bound unit at least. -/
def Lasting (i : ι) (s s' : System ι δ) : Prop :=
  ∀ newer, s'.log = newer ++ s.log → ∀ e ∈ newer, e.owner ≠ some i → e.operation = .acquire →
    ∀ b, s'.BindsTtl e b → 1 ≤ b

/-- A statement of the handle's claim takes effect in `a` and leads to `a'`. -/
structure TakesEffect (d : Deployment ι δ) (rules : Rules) (i : ι) (st : Statement) (v : LeaseValues)
    (s a a' s' : System ι δ) : Prop where
  before : s.Idles d rules i a
  effect : ∃ n, a.issued[n]? = some (claimOf d i st v) ∧ a' = a.execute d n (claimOf d i st v)
  after : a'.Idles d rules i s'

/-- **A claim with the token `T` takes the key** from `a` to `a'`: the key was free, expired, or the
handle's own, and its row is the claim's now. -/
structure TakesKey (d : Deployment ι δ) (i : ι) (h : Handle) (T : Token) (a a' : System ι δ) : Prop where
  counted : ∃ e, a'.log = e :: a.log ∧ e.Claimed i
  free : ∀ r, a.table.row? (d.key i) = some r →
    r.isExpired (d.clock.moment a.time) ∨ h.token = some r.token ∨ r.token = T
  row : ∃ deadline, a'.table.row? (d.key i) = some ⟨d.key i, T, deadline⟩

/-- **A live lease keeps a claim with the token `T` off**: the row of the key is that of a handle `j`,
and it carries neither the previous nor the attempted token. -/
structure KeptOff (d : Deployment ι δ) (i : ι) (h : Handle) (T : Token) (j : ι) (s : System ι δ) :
    Prop where
  key : d.key j = d.key i
  row : ∃ r, s.table.row? (d.key i) = some r ∧ r.isLive (d.clock.moment s.time) ∧
    s.Mints j r.token ∧ r.token ≠ T ∧ h.token ≠ some r.token

variable {d : Deployment ι δ} {rules : Rules} {i j : ι} {h : Handle} {T : Token} {st : Statement}
  {ttl : Duration} {s s' a : System ι δ} {n k : Nat} {t : Table δ} {r : Row δ}

/-! ## At an effect of the claim -/

omit [DecidableEq ι] in
theorem isOf_claimOf {v : LeaseValues} (hst : st ∈ (d.backend.claim d.table).statements) :
    Request.IsOf d.backend d.table .acquire v (claimOf d i st v).request :=
  .claim hst

omit [DecidableEq ι] in
/-- A statement of a claim that counts nothing leaves every row as it was. -/
theorem row?_execute_of_zero {v : LeaseValues} (hst : st ∈ (d.backend.claim d.table).statements)
    (heff : (claimOf d i st v).request.effect (d.clock.moment a.time) a.table = .ok (0, t)) :
    (a.execute d n (claimOf d i st v)).table.row? = a.table.row? := by
  have acts := (isOf_claimOf hst).acts (by simp) heff
  obtain ⟨k', t', heff', hexec⟩ | ⟨e, he, -⟩ := execute_cases d a n (claimOf d i st v)
  · obtain ⟨rfl, rfl⟩ := Prod.mk.inj (Except.ok.inj (heff.symm.trans heff'))
    rw [hexec]
    exact acts.row?_of_zero
  · exact absurd (heff.symm.trans he) (by simp)

omit [DecidableEq ι] in
/-- A statement that fails leaves the table as it was. -/
theorem table_execute_of_error {x : Issued ι} {e : Violation}
    (heff : x.request.effect (d.clock.moment a.time) a.table = .error e) :
    (a.execute d n x).table = a.table := by
  obtain ⟨k', t', heff', -⟩ | ⟨e, -, hexec⟩ := execute_cases d a n x
  · exact absurd (heff.symm.trans heff') (by simp)
  · rw [hexec]

/-- An effect of a claim that counted takes the key. -/
theorem takesKey_of_counted (hr : Reachable d rules a) (hb : d.backend.shadows d.table = false)
    (hst : st ∈ (d.backend.claim d.table).statements) (hkey : h.key = d.key i)
    (heff : (claimOf d i st (h.claimValues T ttl)).request.effect (d.clock.moment a.time) a.table =
      .ok (k + 1, t)) :
    TakesKey d i h T a (a.execute d n (claimOf d i st (h.claimValues T ttl))) := by
  have acts := (isOf_claimOf hst).acts (by simp) heff
  rw [hb] at acts
  obtain ⟨free, deadline, -, hrow⟩ := acts.row.taken_of_counted k.succ_pos
  rw [show (h.claimValues T ttl).key = d.key i from hkey] at free hrow
  obtain ⟨k', t', heff', hexec⟩ | ⟨e, he, -⟩ := execute_cases d a n (claimOf d i st (h.claimValues T ttl))
  swap
  · exact absurd (heff.symm.trans he) (by simp)
  obtain ⟨rfl, rfl⟩ := Prod.mk.inj (Except.ok.inj (heff.symm.trans heff'))
  rw [hexec]
  refine ⟨⟨_, rfl, rfl, rfl, k.succ_pos⟩, fun r hrow => ?_, deadline, hrow⟩
  have claimable := free r hrow
  rw [Row.isClaimable, Bool.or_eq_true, Bool.or_eq_true, decide_eq_true_eq, decide_eq_true_eq]
    at claimable
  rcases claimable with hexp | hprevious | hattempted
  · exact Or.inl hexp
  · -- a row has a token, so the previous one was not absent
    refine Or.inr (Or.inl ?_)
    cases htoken : h.token with
    | some previous => exact congrArg some (by simpa [Handle.claimValues, htoken] using hprevious)
    | none =>
        obtain ⟨j, -, hminted⟩ := hr.sound.rows hrow
        have hempty : r.token = "" := by simpa [Handle.claimValues, htoken] using hprevious.symm
        exact absurd (hempty ▸ hminted) (hr.sound.nonempty j)
  · exact Or.inr (Or.inr hattempted.symm)

/-- The row that an update passes over keeps the claim off, as long as it is not one of the handle's own
that its previous or attempted token has lost sight of. -/
theorem keptOff_of_passed (hr : Reachable d rules a) (hst : st ∈ (d.backend.claim d.table).statements)
    (hkey : h.key = d.key i) (hreads : ∃ now, (d.clock.moment a.time).now = some now)
    (heff : (claimOf d i st (h.claimValues T ttl)).request.effect (d.clock.moment a.time) a.table =
      .ok (0, t)) (hrow : a.table.row? (d.key i) = some r) :
    ∃ j, KeptOff d i h T j (a.execute d n (claimOf d i st (h.claimValues T ttl))) ∧
      a.Mints j r.token ∧ r.token ≠ T ∧ h.token ≠ some r.token := by
  have acts := (isOf_claimOf hst).acts (by simp) heff
  have unclaimable := acts.row.unclaimable_of_zero r ((congrArg a.table.row? hkey).trans hrow)
  rw [Row.isClaimable, Bool.or_eq_false_iff, Bool.or_eq_false_iff, decide_eq_false_iff_not,
    decide_eq_false_iff_not] at unclaimable
  obtain ⟨unexpired, hprevious, hattempted⟩ := unclaimable
  obtain ⟨now, hnow⟩ := hreads
  have live : r.isLive (d.clock.moment a.time) := by
    simpa [Row.isLive, Row.isExpired, hnow] using unexpired
  obtain ⟨j, hj, hminted⟩ := hr.sound.rows hrow
  have unattempted : r.token ≠ T := fun hT => hattempted hT.symm
  have unheld : h.token ≠ some r.token :=
    fun htoken => hprevious (by simp [Handle.claimValues, htoken])
  have still : (a.execute d n (claimOf d i st (h.claimValues T ttl))).table.row? (d.key i) = some r := by
    rw [row?_execute_of_zero hst heff, hrow]
  exact ⟨j, ⟨hj, r, still, live, hminted, unattempted, unheld⟩, hminted, unattempted, unheld⟩

/-- A row that another handle's claim has just put into a free place keeps the claim off. -/
theorem keptOff_of_taken (hr : Reachable d rules a) (hb : d.backend.shadows d.table = false)
    (hclock : d.clock.Advances 1) (hreads : ∃ now, (d.clock.moment a.time).now = some now)
    {x : Issued ι} (hx : a.issued[n]? = some x) (hother : x.owner ≠ some i)
    (hlasting : ∀ b, x.operation = .acquire → x.request.ttl? = some b → 1 ≤ b)
    (hfree : a.table.row? (d.key i) = none)
    (hrow : (a.execute d n x).table.row? (d.key i) = some r) (hT : a.Mints i T)
    (htoken : ∀ U, h.token = some U → a.Mints i U) :
    ∃ j, j ≠ i ∧ KeptOff d i h T j (a.execute d n x) := by
  obtain ⟨k, t, outcome, heff, -, hexec⟩ := hr.sound.effect_cases hx
  have hafter : t.row? (d.key i) = some r := by
    rw [hexec] at hrow
    exact hrow
  cases heff with
  | failed => exact absurd (hfree.symm.trans hafter) (by simp)
  | purged _ _ rows =>
      rw [rows, hfree] at hafter
      exact absurd hafter (by simp)
  | @acted j v _ _ howner hof hkey _ hclaim acts =>
      have hij : j ≠ i := fun e => hother (e ▸ howner)
      have place : d.key i = v.key := by
        by_contra hne
        rw [acts.others _ hne, hfree] at hafter
        exact absurd hafter (by simp)
      have row := acts.row
      rw [hb, ← place, hfree, hafter] at row
      generalize hop : x.operation = op at row
      cases row with
      | @taken _ deadline _ hd =>
          -- the row has the claim's token, and a deadline that is still to come
          obtain ⟨hminted, -⟩ := hclaim hop
          obtain ⟨now, hnow⟩ := hreads
          have later : now < deadline :=
            hclock (hlasting _ hop (hof.ttl?_eq (Or.inl hop))) hnow hd
          have foreign : ∀ U, a.Mints i U → v.token ≠ U := by
            rintro U hU rfl
            exact hij (hr.sound.single hminted hU)
          rw [hexec]
          refine ⟨j, hij, hkey.symm.trans place.symm, _, hafter, ?_, hminted, foreign T hT, ?_⟩
          · simp [Row.isLive, hnow, later]
          · exact fun htok => foreign _ (htoken _ htok) rfl

/-! ## Own rows -/

/-- What others do gives the row no token of the handle's. -/
theorem Others.carries (hothers : s.Others d rules i s') (hr : Reachable d rules s) {U : Token}
    (hU : s'.Carries d i U) : s.Carries d i U := by
  induction hothers with
  | refl => exact hU
  | @step b b' e hbefore he hs ih =>
      have hb : Reachable d rules b := hbefore.idles.reachable hr
      refine ih ?_
      rcases he.effect_or_quiet hs with ⟨m, x, hx, hfate, howner, rfl⟩ | htable
      · obtain ⟨k, t, outcome, heff, -, hexec⟩ := hb.sound.effect_cases hx
        rw [hexec] at hU
        exact heff.carries hb.sound howner hU
      · obtain ⟨r, hrow, htok, hminted⟩ := hU
        exact ⟨r, htable ▸ hrow, htok, (aside_of_not_calls he.1 hs).mints U hminted⟩

/-! ## The course of a claim -/

/-- **The course of an acquisition in two steps** that was answered: the update counted; or it counted
nothing in `a₁`, the answer came in `b₁`, and the insert that was sent then counted, or met a row. -/
inductive Course (d : Deployment ι δ) (rules : Rules) (i : ι) (update insert : Statement)
    (v : LeaseValues) (begun s' : System ι δ) : Except LockError Unit → Prop
  | updated {n k : Nat} {a b : System ι δ} {t : Table δ} :
      EffectAt d rules i n (claimOf d i update v) begun a b → b.Idles d rules i s' →
      (claimOf d i update v).request.effect (d.clock.moment a.time) a.table = .ok (k + 1, t) →
      Course d rules i update insert v begun s' (.ok ())
  | inserted {n₁ n₂ k : Nat} {a₁ b₁ c a₂ b₂ : System ι δ} {t : Table δ} :
      EffectAt d rules i n₁ (claimOf d i update v) begun a₁ b₁ → b₁.Idles d rules i c →
      EffectAt d rules i n₂ (claimOf d i insert v) c a₂ b₂ → b₂.Idles d rules i s' →
      (claimOf d i insert v).request.effect (d.clock.moment a₂.time) a₂.table = .ok (k + 1, t) →
      Course d rules i update insert v begun s' (.ok ())
  | refused {n₁ n₂ : Nat} {a₁ b₁ c a₂ b₂ : System ι δ} {t : Table δ} {key : String} :
      EffectAt d rules i n₁ (claimOf d i update v) begun a₁ b₁ → b₁.Idles d rules i c →
      (claimOf d i update v).request.effect (d.clock.moment a₁.time) a₁.table = .ok (0, t) →
      c.table = b₁.table →
      EffectAt d rules i n₂ (claimOf d i insert v) c a₂ b₂ → b₂.Idles d rules i s' →
      (claimOf d i insert v).request.effect (d.clock.moment a₂.time) a₂.table = .error .duplicateKey →
      Course d rules i update insert v begun s' (.error (.contention key))

variable {update insert : Statement} {fresh : Token} {result : Except LockError Unit}
  {begun : System ι δ}

omit [DecidableEq ι] in
/-- The plan of a handle's manager is that of its deployment. -/
theorem claimPlan_eq (d : Deployment ι δ) (i : ι) :
    (d.manager i).claimPlan = d.backend.claim d.table := by
  rw [← d.backend_eq i, ← d.table_eq i]
  rfl

/-- What an acquisition has done when it has begun: its update is under way, and nothing else of the
handle's. -/
theorem Attempt.update_underWay (ha : Attempt d rules i h fresh ttl result s begun s')
    {held : Handle} {first : Reply → Call Handle (Except LockError Unit)} {v : LeaseValues}
    (hacquire : h.acquire (d.manager i) fresh ttl =
      .ask ((d.manager i).request update v) held first) :
    begun.clients i = .waiting .acquire s.issued.length held first ∧
      begun.issued[s.issued.length]? = some (claimOf d i update v) ∧
      ∀ op m, begun.UnderWay i op m → m = s.issued.length := by
  obtain ⟨last, hc⟩ := ha.resting
  cases step_cases ha.begins with
  | acquire hc' _ _ =>
      obtain ⟨rfl, -⟩ := Client.resting.inj (hc.symm.trans hc')
      rw [hacquire]
      refine ⟨proceed_ask_clients _ _ _ _ _ _, getElem?_proceed_ask _ _ _ _ _ _, fun op m hm => ?_⟩
      rcases underWay_proceed hm with hold | hnew
      · exact absurd hold (ha.alone op m)
      · exact hnew

/-- What was answered was not refused beforehand. -/
theorem Attempt.ttl_isZero (ha : Attempt d rules i h fresh ttl result s begun s')
    (hanswered : result = .ok () ∨ ∃ key, result = .error (.contention key)) :
    ttl.isZero = false := by
  obtain ⟨h', hend⟩ := ha.returned
  obtain ⟨last, hc⟩ := ha.resting
  by_contra hzero
  have hgoes := ha.goes
  cases step_cases ha.begins with
  | acquire hc' _ _ =>
      obtain ⟨rfl, -⟩ := Client.resting.inj (hc.symm.trans hc')
      have refused := h.acquire_of_isZero (by simpa using hzero) (d.manager i) fresh
      obtain ⟨-, rfl⟩ := Prod.mk.inj (hgoes.of_done refused hend)
      rcases hanswered with hok | ⟨key, hcontention⟩
      · exact absurd hok (by simp)
      · exact absurd hcontention (by simp)

/-- **An acquisition that was answered** has taken one of three courses. -/
theorem Attempt.course (ha : Attempt d rules i h fresh ttl result s begun s')
    (hplan : d.backend.claim d.table = .updateThenInsert update insert)
    (hhonest : rules.honest = true)
    (hanswered : result = .ok () ∨ ∃ key, result = .error (.contention key)) :
    Course d rules i update insert (h.attempt fresh ttl) begun s' result := by
  obtain ⟨h', hend⟩ := ha.returned
  obtain ⟨held, first, second, hacquire, hfirst, hnext, hfailed, hsecond, hduplicate, hlost⟩ :=
    h.exists_acquire_twoStep (ha.ttl_isZero hanswered) ((claimPlan_eq d i).trans hplan) fresh
  obtain ⟨hc, hx, hown⟩ := ha.update_underWay hacquire
  -- an acquisition that was answered does not end with a transport error
  have answered : ∀ {c : System ι δ} {call : Call Handle (Except LockError Unit)} {state : Handle}
      {e : TransportError}, (c.proceed i .acquire call).Idles d rules i s' →
      call ≠ .done state (.error (.transport h.key .acquire e)) [] := by
    intro c call state e hidle hdone
    obtain ⟨-, rfl⟩ := Prod.mk.inj (hidle.of_done hdone hend)
    rcases hanswered with hok | ⟨key, hcontention⟩
    · exact absurd hok (by simp)
    · exact absurd hcontention (by simp)
  obtain ⟨b₁, r₁, hreply₁, hidle₁, -, hl | ⟨a₁, heffect₁, ⟨k, t₁, heff₁, rfl⟩ | ⟨cause, -, rfl⟩⟩⟩ :=
    ha.goes.answered hx rfl hown hc rfl hhonest hend
  · obtain ⟨state, e, hdone⟩ := hfailed r₁ fun n hn => by
      obtain ⟨e, he⟩ := hl.rows
      rw [hn] at he
      exact absurd he (by simp [Reply.rows])
    exact absurd hdone (answered hidle₁)
  · cases k with
    | succ k =>
        obtain ⟨state, events, hdone⟩ := hfirst k
        obtain ⟨-, rfl⟩ := Prod.mk.inj (hidle₁.of_done hdone hend)
        exact .updated heffect₁ ((idles_reply hreply₁).trans hidle₁) heff₁
    | zero =>
        -- the insert is sent, and it is the one statement under way
        rw [hnext] at hreply₁ hidle₁
        have sent := idles_reply hreply₁
        have alone := heffect₁.not_underWay hown
        obtain ⟨b₂, r₂, hreply₂, hidle₂, -, hl | ⟨a₂, heffect₂, ⟨k, t₂, heff₂, rfl⟩ | ⟨cause, heff₂, rfl⟩⟩⟩ :=
          hidle₁.answered (getElem?_proceed_ask _ _ _ _ _ _) rfl
            (fun op m hm => (underWay_proceed hm).resolve_left (alone op m))
            (proceed_ask_clients _ _ _ _ _ _) rfl hhonest hend
        · obtain ⟨state, e, hdone⟩ := hlost r₂ hl
          exact absurd hdone (answered hidle₂)
        · obtain rfl : k = 1 := Backend.insert_eq_ok hplan heff₂
          obtain ⟨state, events, hdone⟩ := hsecond 0
          obtain ⟨-, rfl⟩ := Prod.mk.inj (hidle₂.of_done hdone hend)
          exact .inserted heffect₁ sent heffect₂ ((idles_reply hreply₂).trans hidle₂) heff₂
        · obtain ⟨state, hdone⟩ := hduplicate cause
          obtain ⟨-, rfl⟩ := Prod.mk.inj (hidle₂.of_done hdone hend)
          exact .refused heffect₁ sent heff₁ rfl heffect₂ ((idles_reply hreply₂).trans hidle₂) heff₂
  · obtain ⟨state, e, hdone⟩ := hfailed (.answered (.error (.duplicateKey cause))) (by simp)
    exact absurd hdone (answered hidle₁)

/-! ## The moment of a claim -/

theorem EffectAt.takesEffect {v : LeaseValues} {b c : System ι δ}
    (he : EffectAt d rules i n (claimOf d i st v) s a b) (hrest : b.Idles d rules i c) :
    TakesEffect d rules i st v s a (a.execute d n (claimOf d i st v)) c :=
  ⟨he.before.idles, ⟨n, he.issued, rfl⟩, he.after.idles.trans hrest⟩

omit [DecidableEq ι] in
/-- An effect from `s` to `s'` that claims a key for another handle lasts. -/
theorem Lasting.one_le {b : System ι δ} (hl : Lasting i s s') (hbefore : s.Grows b) {x : Issued ι}
    (hx : b.issued[n]? = some x) (hother : x.owner ≠ some i)
    (hafter : (b.execute d n x).Grows s') {ttl : Int} (hop : x.operation = .acquire)
    (httl : x.request.ttl? = some ttl) : 1 ≤ ttl := by
  obtain ⟨outcome, row, -, hlog⟩ := settle_execute d b n x
  obtain ⟨older, holder⟩ := hbefore.log
  obtain ⟨newer, hnewer⟩ := hafter.log
  obtain ⟨outcome', hdone⟩ := getElem?_execute (d := d) hx
  obtain ⟨y, hy, hlater⟩ := hafter.issued n _ hdone
  refine hl (newer ++ ⟨x.owner, x.operation, n, b.time, affectedRows outcome, row⟩ :: older) ?_
    ⟨x.owner, x.operation, n, b.time, affectedRows outcome, row⟩ (by simp) hother hop ttl
    ⟨y, hy, ?_⟩
  · rw [hnewer, hlog, holder, List.append_assoc, List.cons_append]
  · rw [hlater.request]
    exact httl

/-- The tokens of an acquisition are the handle's own. -/
theorem Attempt.mints (ha : Attempt d rules i h fresh ttl result s begun s') :
    h.key = d.key i ∧ begun.Mints i (h.nextToken fresh) ∧
      ∀ U, h.token = some U → begun.Mints i U := by
  obtain ⟨last, hc⟩ := ha.resting
  have within := ha.reachable.sound.within hc
  have grows : s.Grows begun := grows_step ha.begins
  have minted : begun.Mints i fresh := by
    cases step_cases ha.begins with
    | acquire _ _ _ =>
        show (i, fresh) ∈ System.minted _
        rw [proceed_minted]
        exact List.mem_cons_self
  exact ⟨within.key_eq,
    Handle.nextToken_own (fun U hU => grows.minted i U (within.unconfirmed U hU)) minted,
    fun U hU => grows.minted i U (within.token U hU)⟩

/-- With a punctual history the handle has no row of its own that its claim does not match. -/
theorem Attempt.matches (ha : Attempt d rules i h fresh ttl result s begun s')
    (hp : Punctually d rules i s) (hhonest : rules.honest = true)
    (hb : d.backend.shadows d.table = false) {U : Token} (hU : begun.Carries d i U) :
    h.token = some U ∨ U = h.nextToken fresh := by
  obtain ⟨last, hc⟩ := ha.resting
  have carried : s.Carries d i U := by
    cases step_cases ha.begins with
    | acquire _ _ hfresh =>
        refine ha.reachable.sound.carries_mint (i := i) (j := i) hfresh ?_
        obtain ⟨r, hrow, htok, hminted⟩ := hU
        rw [proceed_table] at hrow
        rw [Mints, proceed_minted] at hminted
        exact ⟨r, hrow, htok, hminted⟩
  obtain ⟨-, htracks⟩ := (hp.tracked hhonest hb).resting ha.reachable.sound hc
  rcases htracks U carried with htoken | hunconfirmed
  · exact Or.inl htoken
  · exact Or.inr (by simp [Handle.nextToken, hunconfirmed])

/-- A row that appears on the way, while only others move, keeps the claim off. -/
theorem Attempt.keptOff_of_appears (ha : Attempt d rules i h fresh ttl result s begun s')
    (hb : d.backend.shadows d.table = false) (hclock : d.clock.Advances 1)
    (hreads : ∀ time, ∃ now, (d.clock.moment time).now = some now) (hlasting : Lasting i s s')
    {p q : System ι δ} (hp : begun.Idles d rules i p) (hpq : p.Others d rules i q)
    (hq : q.Idles d rules i s') (hnone : p.table.row? (d.key i) = none)
    (hsome : q.table.row? (d.key i) = some r) :
    ∃ m j, p.Idles d rules i m ∧ m.Idles d rules i q ∧ KeptOff d i h (h.nextToken fresh) j m ∧
      j ≠ i := by
  obtain ⟨-, hT, htoken⟩ := ha.mints
  obtain ⟨b, n, x, r', hpb, hx, -, hother, hbefore, hafter, hthere, hrest⟩ := hpq.appears hnone hsome
  have hway : begun.Idles d rules i b := hp.trans hpb.idles
  have hr : Reachable d rules b := hway.reachable (ha.reachable.step ha.begins)
  have lasts : ∀ ttl, x.operation = .acquire → x.request.ttl? = some ttl → 1 ≤ ttl := by
    intro ttl hop httl
    exact hlasting.one_le ((grows_step ha.begins).trans hway.grows) hx hother
      (hrest.idles.trans hq).grows hop httl
  obtain ⟨j, hij, hkept⟩ := keptOff_of_taken hr hb hclock (hreads b.time) hx hother lasts hbefore hafter
    (hway.grows.minted i _ hT) fun U hU => hway.grows.minted i U (htoken U hU)
  exact ⟨_, j, hthere.idles, hrest.idles, hkept, hij⟩

/-- **A refused claim was kept off** at a moment from the effect of its update to that of its insert. -/
theorem Attempt.exists_keptOff (ha : Attempt d rules i h fresh ttl result s begun s')
    (hplan : d.backend.claim d.table = .updateThenInsert update insert)
    (hhonest : rules.honest = true) (hclock : d.clock.Advances 1)
    (hreads : ∀ time, ∃ now, (d.clock.moment time).now = some now) (hlasting : Lasting i s s')
    {n₁ n₂ : Nat} {a₁ b₁ c a₂ b₂ : System ι δ}
    (he₁ : EffectAt d rules i n₁ (claimOf d i update (h.attempt fresh ttl)) begun a₁ b₁)
    (heff₁ : (claimOf d i update (h.attempt fresh ttl)).request.effect (d.clock.moment a₁.time)
      a₁.table = .ok (0, t))
    (hmid : b₁.Idles d rules i c) (htable : c.table = b₁.table)
    (he₂ : EffectAt d rules i n₂ (claimOf d i insert (h.attempt fresh ttl)) c a₂ b₂)
    (heff₂ : (claimOf d i insert (h.attempt fresh ttl)).request.effect (d.clock.moment a₂.time)
      a₂.table = .error .duplicateKey)
    (hrest : b₂.Idles d rules i s') :
    ∃ m j, (a₁.execute d n₁ (claimOf d i update (h.attempt fresh ttl))).Idles d rules i m ∧
      m.Idles d rules i a₂ ∧ KeptOff d i h (h.nextToken fresh) j m ∧
      (Punctually d rules i s → j ≠ i) := by
  have hb : d.backend.shadows d.table = false := Backend.not_shadows_of_twoStep hplan d.table
  have hupdate : update ∈ (d.backend.claim d.table).statements := by simp [hplan, ClaimPlan.statements]
  obtain ⟨hkey, -, -⟩ := ha.mints
  have hbegun : Reachable d rules begun := ha.reachable.step ha.begins
  have between : b₁.Idles d rules i a₂ := hmid.trans he₂.before.idles
  have ends : a₂.Idles d rules i s' := by
    refine Idles.trans ?_ hrest
    exact (Idles.refl.step (show ¬ Move.starts i (.effect n₂) from id) he₂.step).trans he₂.after.idles
  have same := row?_execute_of_zero (n := n₁) hupdate heff₁
  obtain ⟨r₂, hr₂⟩ := Backend.row_of_duplicateKey hplan heff₂
  have there : a₂.table.row? (d.key i) = some r₂ := (congrArg a₂.table.row? hkey).symm.trans hr₂
  cases hrow : a₁.table.row? (d.key i) with
  | some r =>
      -- the row was there for the update, so it may be one of the handle's own
      obtain ⟨j, hkept, hminted, hunattempted, hunheld⟩ := keptOff_of_passed
        (he₁.before.idles.reachable hbegun) hupdate hkey (hreads a₁.time) heff₁ hrow
      refine ⟨_, j, .refl, he₁.after.idles.trans between, hkept, ?_⟩
      rintro hp rfl
      have own : a₁.Carries d j r.token := ⟨r, hrow, rfl, hminted⟩
      rcases ha.matches hp hhonest hb (he₁.before.carries hbegun own) with htok | htok
      · exact hunheld htok
      · exact hunattempted htok
  | none =>
      have free := (congrFun same (d.key i)).trans hrow
      cases hanswer : b₁.table.row? (d.key i) with
      | some r =>
          -- the row appeared before the answer to the update came
          obtain ⟨m, j, hm, hm', hkept, hij⟩ := ha.keptOff_of_appears hb hclock hreads hlasting
            he₁.idles he₁.after (between.trans ends) free hanswer
          exact ⟨m, j, hm, hm'.trans between, hkept, fun _ => hij⟩
      | none =>
          -- it appeared while the insert was under way
          obtain ⟨m, j, hm, hm', hkept, hij⟩ := ha.keptOff_of_appears hb hclock hreads hlasting
            ((he₁.idles.trans he₁.after.idles).trans hmid) he₂.before ends (htable ▸ hanswer) there
          exact ⟨m, j, (he₁.after.idles.trans hmid).trans hm, hm', hkept, fun _ => hij⟩

/-- **A claim in two steps happens at one moment**, whatever other handles do in between.

If it succeeds, then it happens with the statement that counted: just before, the key was free, expired
or carried the handle's previous or attempted token, and just after, the key's row is the handle's. If
it is refused, then neither statement changed a row, and at a moment between their effects, both
included, a live lease on the key carried neither of these tokens. That lease is another handle's,
unless a statement of this handle took effect late, or a call of it was dropped. -/
theorem Attempt.linearizable (ha : Attempt d rules i h fresh ttl result s begun s')
    (hplan : d.backend.claim d.table = .updateThenInsert update insert)
    (hhonest : rules.honest = true) (hclock : d.clock.Advances 1)
    (hreads : ∀ time, ∃ now, (d.clock.moment time).now = some now) (hlasting : Lasting i s s') :
    (result = .ok () → ∃ st a a', st ∈ [update, insert] ∧
      TakesEffect d rules i st (h.attempt fresh ttl) begun a a' s' ∧
      TakesKey d i h (h.nextToken fresh) a a') ∧
    ∀ key, result = .error (.contention key) → ∃ a₁ a₁' a₂ a₂' m j,
      TakesEffect d rules i update (h.attempt fresh ttl) begun a₁ a₁' a₂ ∧
      TakesEffect d rules i insert (h.attempt fresh ttl) a₁' a₂ a₂' s' ∧
      a₁'.table.row? = a₁.table.row? ∧ a₂'.table.row? = a₂.table.row? ∧
      a₁'.Idles d rules i m ∧ m.Idles d rules i a₂ ∧ KeptOff d i h (h.nextToken fresh) j m ∧
      (Punctually d rules i s → j ≠ i) := by
  have hb : d.backend.shadows d.table = false := Backend.not_shadows_of_twoStep hplan d.table
  obtain ⟨hkey, hT, htoken⟩ := ha.mints
  have hbegun : Reachable d rules begun := ha.reachable.step ha.begins
  have planned : ∀ st ∈ [update, insert], st ∈ (d.backend.claim d.table).statements := by
    rw [hplan]
    exact fun st hst => hst
  constructor
  · rintro rfl
    cases ha.course hplan hhonest (Or.inl rfl) with
    | updated he hrest heff =>
        have hr := he.before.idles.reachable hbegun
        exact ⟨update, _, _, by simp, he.takesEffect hrest,
          takesKey_of_counted hr hb (planned update (by simp)) hkey heff⟩
    | @inserted n₁ n₂ k a₁ b₁ c a₂ b₂ t he₁ hmid he₂ hrest heff =>
        have hway : begun.Idles d rules i c :=
          ((Waits.idles (Or.inr ⟨a₁, he₁⟩)).trans hmid)
        have hr := (hway.trans he₂.before.idles).reachable hbegun
        have effect := he₂.takesEffect hrest
        exact ⟨insert, _, _, by simp, ⟨hway.trans effect.before, effect.effect, effect.after⟩,
          takesKey_of_counted hr hb (planned insert (by simp)) hkey heff⟩
  · rintro key rfl
    cases ha.course hplan hhonest (Or.inr ⟨key, rfl⟩) with
    | @refused n₁ n₂ a₁ b₁ c a₂ b₂ t₁ _ he₁ hmid heff₁ htable he₂ hrest heff₂ =>
        obtain ⟨m, j, hm, hm', hkept, hforeign⟩ := ha.exists_keptOff hplan hhonest hclock hreads
          hlasting he₁ heff₁ hmid htable he₂ heff₂ hrest
        have effect₁ := he₁.takesEffect (hmid.trans he₂.before.idles)
        have effect₂ := he₂.takesEffect hrest
        exact ⟨a₁, _, a₂, _, m, j, effect₁, ⟨effect₁.after, effect₂.effect, effect₂.after⟩,
          row?_execute_of_zero (planned update (by simp)) heff₁,
          congrArg Table.row? (table_execute_of_error heff₂), hm, hm', hkept, hforeign⟩

end

/-! ## Two refusals -/

/-- What binds a second and nothing else lasts. -/
theorem lasting_of_issued {ι δ : Type} {i : ι} {s s' : System ι δ}
    (h : (s'.issued.all fun x => x.request.ttl? = some 1000000) = true) : Lasting i s s' := by
  rintro newer - e - - - b ⟨x, hx, hb⟩
  have bound := List.all_eq_true.mp h x (List.mem_of_getElem? hx)
  obtain rfl := Option.some.inj (hb.symm.trans (of_decide_eq_true bound))
  decide

/-- Two handles for one key that claim in two steps, and wait ten milliseconds for an answer. -/
def hasty : Deployment Duellist Int :=
  { Deployment.duel .mysql "locks" with
    manager := fun _ => ⟨.mysql, "locks", some ⟨10000000⟩⟩
    backend_eq := fun _ => rfl
    table_eq := fun _ => rfl }

/-- The rival claims the key between the two steps of the holder. -/
def overtaken : List (Move Duellist) :=
  [.effect 0, .acquire .rival "B" ⟨1000000000⟩, .effect 1, .reply .rival (.answered (.ok 0)),
    .effect 2, .reply .rival (.answered (.ok 1)), .reply .holder (.answered (.ok 0)), .effect 3,
    .reply .holder (.answered (.error (.duplicateKey (.bare "Duplicate entry"))))]

/-- An acquisition in a run from the start, of a handle whose statements are all settled. -/
theorem attempt_of_play {ι δ : Type} [DecidableEq ι] [LinearOrder δ] {d : Deployment ι δ}
    {rules : Rules} {i : ι} {before during : List (Move ι)} {fresh : Token} {ttl : Duration}
    {h h' : Handle} {last : Option (Operation × Except LockError Unit)}
    {result : Except LockError Unit}
    (hbefore : (play d rules before).map (fun s => (s.clients i, s.issued.all fun x => !x.fate.isInFlight)) =
      some (.resting h last, true))
    (hduring : ∀ e ∈ during, ¬ e.starts i)
    (hafter : (play d rules (before ++ .acquire i fresh ttl :: during)).map (fun s => s.clients i) =
      some (.resting h' (some (.acquire, result)))) :
    ∃ s begun s', play d rules before = some s ∧
      play d rules (before ++ .acquire i fresh ttl :: during) = some s' ∧
      Attempt d rules i h fresh ttl result s begun s' := by
  obtain ⟨s, hs, hc⟩ := Option.map_eq_some_iff.mp hbefore
  obtain ⟨s', hs', hc'⟩ := Option.map_eq_some_iff.mp hafter
  obtain ⟨hc, hsettled⟩ := Prod.mk.inj hc
  have hrun : s.run d rules (.acquire i fresh ttl :: during) = some s' := by
    rw [play, run_append, show (start d 0).run d rules before = some s from hs] at hs'
    exact hs'
  obtain ⟨begun, hbegin, hrest⟩ := Option.bind_eq_some_iff.mp hrun
  refine ⟨s, begun, s', hs, hs', reachable_play hs, ⟨last, hc⟩, ?_, hbegin, idles_of_run hduring hrest,
    ⟨h', hc'⟩⟩
  rintro op n ⟨x, hx, -, -, hfate⟩
  have settled := List.all_eq_true.mp hsettled x (List.mem_of_getElem? hx)
  simp [hfate, Fate.isInFlight] at settled

/-- The holder is refused, and it was the rival that kept it off. -/
theorem refused_by_rival :
    ∃ (update insert : Statement) (s begun s' : System Duellist Int) (h : Handle) (key : String),
      hasty.backend.claim hasty.table = .updateThenInsert update insert ∧
      Rules.truthful.honest = true ∧ hasty.clock.Advances 1 ∧
      (∀ time, ∃ now, (hasty.clock.moment time).now = some now) ∧
      Attempt hasty .truthful .holder h "A" ⟨1000000000⟩ (.error (.contention key)) s begun s' ∧
      Lasting .holder s s' ∧ Punctually hasty .truthful .holder s ∧
      ∃ a₁ a₁' a₂ a₂' m,
        TakesEffect hasty .truthful .holder update (h.attempt "A" ⟨1000000000⟩) begun a₁ a₁' a₂ ∧
        TakesEffect hasty .truthful .holder insert (h.attempt "A" ⟨1000000000⟩) a₁' a₂ a₂' s' ∧
        a₁'.Idles hasty .truthful .holder m ∧ m.Idles hasty .truthful .holder a₂ ∧
        KeptOff hasty .holder h "A" .rival m := by
  have hbefore : (play hasty .truthful []).map
      (fun s => (s.clients .holder, s.issued.all fun x => !x.fate.isInFlight)) =
        some (.resting ⟨"job", none, none⟩ none, true) := rfl
  have hafter : (play hasty .truthful ([] ++ .acquire .holder "A" ⟨1000000000⟩ :: overtaken)).map
      (fun s => s.clients .holder) =
        some (.resting ⟨"job", none, none⟩ (some (.acquire, .error (.contention "job")))) := rfl
  have hbound : (play hasty .truthful ([] ++ .acquire .holder "A" ⟨1000000000⟩ :: overtaken)).map
      (fun s => s.issued.all fun x => x.request.ttl? = some 1000000) = some true := rfl
  obtain ⟨s, begun, s', hs, hs', ha⟩ :=
    attempt_of_play hbefore (by simp [overtaken, Move.starts]) hafter
  rw [hs'] at hbound
  have hlasting : Lasting .holder s s' := lasting_of_issued (Option.some.inj hbound)
  have hreads : ∀ time, ∃ now, (hasty.clock.moment time).now = some now := fun time => ⟨time, rfl⟩
  have hp : Punctually hasty .truthful .holder s := by
    obtain rfl := Option.some.inj hs
    exact .start 0
  obtain ⟨a₁, a₁', a₂, a₂', m, j, heffect₁, heffect₂, -, -, hm, hm', hkept, hforeign⟩ :=
    (ha.linearizable rfl rfl Clock.integral_advances hreads hlasting).2 "job" rfl
  have hj : j = .rival := by
    cases j with
    | holder => exact absurd rfl (hforeign hp)
    | rival => rfl
  exact ⟨_, _, s, begun, s', _, "job", rfl, rfl, Clock.integral_advances, hreads, ha, hlasting, hp,
    a₁, a₁', a₂, a₂', m, heffect₁, heffect₂, hm, hm', hj ▸ hkept⟩

/-- The insert of a claim runs out of time, a release finds no row and gives the token up, and then the
insert takes effect. -/
def forsaken : List (Move Duellist) :=
  [.acquire .holder "A" ⟨1000000000⟩, .effect 0, .reply .holder (.answered (.ok 0)), .tick 10000,
    .reply .holder (.overran ⟨10000000⟩), .release .holder, .effect 2,
    .reply .holder (.answered (.ok 0)), .effect 1]

/-- Alone with its row, the holder is refused. -/
def unrivalled : List (Move Duellist) :=
  [.effect 3, .reply .holder (.answered (.ok 0)), .effect 4,
    .reply .holder (.answered (.error (.duplicateKey (.bare "Duplicate entry"))))]

/-- **A claim can be refused though no other handle has ever claimed anything**: the row is one that the
handle's own insert wrote after the call had given up waiting for it. -/
theorem refused_by_own_row :
    ∃ (update insert : Statement) (s begun s' : System Duellist Int) (h : Handle) (key : String),
      hasty.backend.claim hasty.table = .updateThenInsert update insert ∧
      Rules.truthful.honest = true ∧ hasty.clock.Advances 1 ∧
      (∀ time, ∃ now, (hasty.clock.moment time).now = some now) ∧
      Attempt hasty .truthful .holder h "C" ⟨1000000000⟩ (.error (.contention key)) s begun s' ∧
      Lasting .holder s s' ∧
      ∀ m, begun.Idles hasty .truthful .holder m → m.Idles hasty .truthful .holder s' →
        ∀ j, j ≠ .holder → ∀ r, m.table.row? (hasty.key .holder) = some r → ¬ m.Mints j r.token := by
  have hbefore : (play hasty .truthful forsaken).map
      (fun s => (s.clients .holder, s.issued.all fun x => !x.fate.isInFlight)) =
        some (.resting ⟨"job", none, none⟩ (some (.release, .error (.lostLease "job"))), true) := rfl
  have hafter : (play hasty .truthful (forsaken ++ .acquire .holder "C" ⟨1000000000⟩ :: unrivalled)).map
      (fun s => s.clients .holder) =
        some (.resting ⟨"job", none, none⟩ (some (.acquire, .error (.contention "job")))) := rfl
  have hend : (play hasty .truthful (forsaken ++ .acquire .holder "C" ⟨1000000000⟩ :: unrivalled)).map
      (fun s => (s.log.all fun e => e.owner = some .holder, s.minted)) =
        some (true, [(.holder, "C"), (.holder, "A")]) := rfl
  obtain ⟨s, begun, s', hs, hs', ha⟩ := attempt_of_play hbefore (by simp [unrivalled, Move.starts]) hafter
  rw [hs'] at hend
  obtain ⟨hlog, hminted⟩ := Prod.mk.inj (Option.some.inj hend)
  refine ⟨_, _, s, begun, s', _, "job", rfl, rfl, Clock.integral_advances, fun time => ⟨time, rfl⟩, ha, ?_, ?_⟩
  · -- nobody else has done anything
    intro newer hnewer e he hother
    have own := List.all_eq_true.mp hlog e (hnewer ▸ List.mem_append_left _ he)
    exact absurd (of_decide_eq_true own) hother
  · intro m _ hm j hj r _ hr
    have later : (j, r.token) ∈ s'.minted := hm.grows.minted j r.token hr
    rw [hminted] at later
    rcases List.mem_cons.mp later with h | h
    · exact hj (Prod.mk.inj h).1
    · exact hj (Prod.mk.inj (List.mem_singleton.mp h)).1

end System

end LeaseLock
