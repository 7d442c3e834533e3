/-
# LeaseLock.Proofs.Lifetime -- a lease that is renewed in time

The law of a lease under way, on the database's own clock. While the deadline of the row has not come,
the row is safe from all others, purges included; and a statement of the run that takes effect before
it moves the deadline on by the time to live that was asked for (`System.Sent.execute`). So a lease is
never out, as long as each statement of the run comes before the deadline that the one before it wrote.

Between two statements of the run only others move (`System.Rests`). While one is under way it may take
effect at any move (`System.Sent`), and it stays done then (`System.Done`).
-/
import LeaseLock.Proofs.LeftBehind

namespace LeaseLock

/-- What a backend binds for a time to live, in nanoseconds. -/
def Backend.boundNanos (b : Backend) (ttl : Duration) : Int :=
  match b with
  | .mssql => b.boundTtl ttl * 1000000
  | _ => b.boundTtl ttl * 1000

theorem Issued.Later.eq_of_fate {ι : Type} {x x' : Issued ι} (h : x.Later x')
    (hfate : x'.fate = x.fate) : x' = x := by
  obtain ⟨howner, hoperation, hrequest, -⟩ := h
  cases x
  cases x'
  cases howner
  cases hoperation
  cases hrequest
  cases hfate
  rfl

namespace System

section

variable {ι δ : Type} [LinearOrder δ]

/-! ## What is assumed and what is claimed of a state -/

/-- **The database keeps time**: it shows the instant, its deadlines lie the bound time to live after
it, and so does each deadline that the handle has written. -/
structure Timely (d : Deployment ι δ) (i : ι) (stamp : Int → δ) (ttl : Duration) (s : System ι δ) :
    Prop where
  now : (d.clock.moment s.time).now = some (stamp s.time)
  after : (d.clock.moment s.time).after (d.backend.boundTtl ttl) =
    some (stamp (s.time + d.backend.boundNanos ttl))
  written : ∀ e ∈ s.log, ∀ deadline, e.Wrote i deadline →
    deadline = stamp (e.time + d.backend.boundNanos ttl)

/-- **The lease is alive**: since the claim has counted, the row carries the token with a deadline in
the future; every extension has counted, and no claim of another handle has since. -/
structure Alive (d : Deployment ι δ) (i : ι) (T : Token) (s : System ι δ) : Prop where
  live : s.Won i → ∃ r, s.table.row? (d.key i) = some r ∧ r.token = T ∧
    r.isLive (d.clock.moment s.time)
  extended : ∀ e ∈ s.log, e.owner = some i → e.operation = .extend → 0 < e.affected
  alone : ∀ (later : List (Entry ι δ)) (c : Entry ι δ) (earlier : List (Entry ι δ)),
    s.log = later ++ c :: earlier → c.Claimed i → ∀ e ∈ later, ¬ e.Foreign d i

/-- The row carries the token until an instant, at least. -/
def Lasts (d : Deployment ι δ) (i : ι) (T : Token) (stamp : Int → δ) (t : Int) (s : System ι δ) :
    Prop :=
  ∃ r u, s.table.row? (d.key i) = some r ∧ r.token = T ∧ r.deadline = stamp u ∧ t ≤ u

variable {d : Deployment ι δ} {i : ι} {T : Token} {stamp : Int → δ} {ttl : Duration}
  {s s' : System ι δ} {t : Int} {e : Entry ι δ}

theorem Lasts.mono (h : s.Lasts d i T stamp t) {t' : Int} (ht : t' ≤ t) : s.Lasts d i T stamp t' := by
  obtain ⟨r, u, hr, htoken, hu, htu⟩ := h
  exact ⟨r, u, hr, htoken, hu, ht.trans htu⟩

/-- Before that instant the row is live. -/
theorem Timely.live (h : s.Timely d i stamp ttl) (hstamp : StrictMono stamp)
    (hlasts : s.Lasts d i T stamp t) (ht : s.time < t) :
    ∃ r, s.table.row? (d.key i) = some r ∧ r.token = T ∧ r.isLive (d.clock.moment s.time) := by
  obtain ⟨r, u, hr, htoken, hu, htu⟩ := hlasts
  refine ⟨r, hr, htoken, ?_⟩
  rw [Row.isLive, h.now, Option.any_some, hu]
  exact decide_eq_true (hstamp (ht.trans_le htu))

theorem not_isExpired_of_isLive {r : Row δ} {m : Moment δ} (h : r.isLive m) : ¬ r.isExpired m := by
  intro hexpired
  obtain ⟨now, hnow, hlt⟩ := Row.isExpired_iff.mp hexpired
  rw [Row.isLive, hnow, Option.any_some] at h
  exact hlt (of_decide_eq_true h)

/-- An effect that is no claim of another handle, and is no extension that has failed. -/
theorem Alive.cons (h : s.Alive d i T) (hlog : s'.log = e :: s.log)
    (live : s'.Won i → ∃ r, s'.table.row? (d.key i) = some r ∧ r.token = T ∧
      r.isLive (d.clock.moment s'.time))
    (extended : e.owner = some i → e.operation = .extend → 0 < e.affected)
    (alone : s.Won i → ¬ e.Foreign d i) : s'.Alive d i T := by
  refine ⟨live, ?_, ?_⟩
  · intro x hx howner hop
    rcases List.mem_cons.mp (hlog ▸ hx) with rfl | hold
    · exact extended howner hop
    · exact h.extended x hold howner hop
  · intro later c earlier hsplit hc
    rcases List.cons_eq_append_iff.mp (hlog.symm.trans hsplit) with ⟨rfl, -⟩ | ⟨later, rfl, hold⟩
    · intro x hx
      exact absurd hx List.not_mem_nil
    · intro x hx
      rcases List.mem_cons.mp hx with rfl | hx
      · exact alone ⟨c, by simp [hold], hc⟩
      · exact h.alone later c earlier hold hc x hx

theorem Alive.quiet (h : s.Alive d i T) (hlog : s'.log = s.log)
    (live : s'.Won i → ∃ r, s'.table.row? (d.key i) = some r ∧ r.token = T ∧
      r.isLive (d.clock.moment s'.time)) : s'.Alive d i T := by
  refine ⟨live, ?_, ?_⟩
  · rw [hlog]
    exact h.extended
  · rw [hlog]
    exact h.alone

/-! ## Between the statements of a run -/

/-- **A lease until `t`**, if the claim has counted. -/
structure LeasedUntil (d : Deployment ι δ) (i : ι) (T : Token) (stamp : Int → δ) (t : Int)
    (s : System ι δ) : Prop where
  watched : Watched d i T s
  lasts : s.Won i → s.Lasts d i T stamp t

/-- Others cannot harm the lease before its end. -/
theorem LeasedUntil.execute_of_others (h : LeasedUntil d i T stamp t s) (alive : s.Alive d i T)
    (timely : s.Timely d i stamp ttl) (hstamp : StrictMono stamp) (ht : s.time < t) {n : Nat}
    {x : Issued ι} (hx : s.issued[n]? = some x) (hother : x.owner ≠ some i)
    (timely' : (s.execute d n x).Timely d i stamp ttl) :
    ((s.execute d n x).Won i → s.Won i) ∧
      ((s.execute d n x).Won i → (s.execute d n x).Lasts d i T stamp t) ∧
      (s.execute d n x).Alive d i T := by
  obtain ⟨k, table, outcome, heff, -, hexec⟩ := h.watched.sound.effect_cases hx
  let entry : Entry ι δ :=
    ⟨x.owner, x.operation, n, s.time, k, x.owner.bind fun i => table.row? (d.key i)⟩
  have hlog : (s.execute d n x).log = entry :: s.log := by rw [hexec]
  have htable : (s.execute d n x).table = table := by rw [hexec]
  have hwon : (s.execute d n x).Won i → s.Won i := by
    rintro ⟨c, hc, hclaimed⟩
    rcases List.mem_cons.mp (hlog ▸ hc) with rfl | hold
    · exact absurd hclaimed.owner hother
    · exact ⟨c, hold, hclaimed⟩
  have kept : s.Won i → (s.execute d n x).Lasts d i T stamp t ∧ ¬ entry.Foreign d i := by
    intro won
    obtain ⟨r, u, hr, htoken, hu, htu⟩ := h.lasts won
    obtain ⟨r', hr', -, hlive⟩ := timely.live hstamp (h.lasts won) ht
    obtain rfl := Option.some.inj (hr.symm.trans hr')
    obtain ⟨same, quiet⟩ := heff.row_kept h.watched.sound hr (htoken ▸ h.watched.own) hother
      (not_isExpired_of_isLive hlive)
    refine ⟨⟨r, u, htable ▸ same, htoken, hu, htu⟩, ?_⟩
    rintro ⟨j, -, hkey, hclaimed⟩
    have zero : k = 0 := quiet j hclaimed.owner hkey
    exact absurd hclaimed.counted (by simp [entry, zero])
  refine ⟨hwon, fun won => (kept (hwon won)).1, ?_⟩
  apply alive.cons hlog
  · intro won
    exact timely'.live hstamp (kept (hwon won)).1 ht
  · exact fun howner => absurd howner hother
  · exact fun won => (kept won).2

omit [LinearOrder δ] in
/-- What has not been logged has not happened. -/
theorem Logged.issued_of_quiet (h : s.Logged) (h' : s'.Logged) (hgrows : s.Grows s')
    (hlog : s'.log = s.log) {n : Nat} {x : Issued ι} (hx : s.issued[n]? = some x) :
    s'.issued[n]? = some x := by
  obtain ⟨x', hx', hlater⟩ := hgrows.issued n x hx
  rw [hx']
  rcases hlater.fate with hsame | hfresh
  · rw [hlater.eq_of_fate hsame]
  · cases hfate : x'.fate with
    | inFlight => rw [hlater.eq_of_fate (hfate.trans hfresh.symm)]
    | done outcome =>
        obtain ⟨e, he, rfl, -⟩ := h'.settled n x' outcome hx' hfate
        obtain ⟨y, outcome', hy, -, -, hdone, -⟩ := h.entry e (hlog ▸ he)
        obtain rfl := Option.some.inj (hx.symm.trans hy)
        exact absurd (hfresh.symm.trans hdone) (by simp)

end

section

variable {ι δ : Type} [DecidableEq ι] [LinearOrder δ] {d : Deployment ι δ} {i : ι} {T : Token}
  {stamp : Int → δ} {ttl : Duration} {s s' : System ι δ} {t : Int} {e : Move ι}

/-- **A move of the others** keeps the lease, unless it is the effect of a statement of the run's own.
What the run has under way stays under way. -/
theorem LeasedUntil.step (h : LeasedUntil d i T stamp t s) (alive : s.Alive d i T)
    (timely : s.Timely d i stamp ttl) (timely' : s'.Timely d i stamp ttl) (hstamp : StrictMono stamp)
    (he : ¬ e.starts i) (hs : s.step d .anything e = some s') (ht : s'.time < t) :
    (∃ n x, s.issued[n]? = some x ∧ x.owner = some i ∧ x.fate = .inFlight ∧ s' = s.execute d n x) ∨
      LeasedUntil d i T stamp t s' ∧ s'.Alive d i T ∧ (s'.Won i → s.Won i) ∧
        ∀ (n : Nat) (x : Issued ι), s.issued[n]? = some x → x.owner = some i →
          s'.issued[n]? = some x := by
  have watched : Watched d i T s' := h.watched.step he hs
  rcases effect_or_quiet hs with ⟨n, x, hx, hfate, rfl⟩ | ⟨htable, hlog, htime⟩
  · by_cases howner : x.owner = some i
    · exact Or.inl ⟨n, x, hx, howner, hfate, rfl⟩
    · obtain ⟨hwon, hlasts, halive⟩ :=
        h.execute_of_others alive timely hstamp ht hx howner timely'
      refine Or.inr ⟨⟨watched, hlasts⟩, halive, hwon, ?_⟩
      intro m y hy hyowner
      have other : n ≠ m := by
        rintro rfl
        obtain rfl := Option.some.inj (hx.symm.trans hy)
        exact howner hyowner
      exact (getElem?_execute_of_ne other).trans hy
  · have hwon : s'.Won i → s.Won i := by
      rintro ⟨c, hc, hclaimed⟩
      exact ⟨c, hlog ▸ hc, hclaimed⟩
    have hlasts : s'.Won i → s'.Lasts d i T stamp t := by
      intro won
      obtain ⟨r, u, hr, hrest⟩ := h.lasts (hwon won)
      exact ⟨r, u, htable ▸ hr, hrest⟩
    have halive : s'.Alive d i T :=
      alive.quiet hlog fun won => timely'.live hstamp (hlasts won) ht
    refine Or.inr ⟨⟨watched, hlasts⟩, halive, hwon, ?_⟩
    intro n x hx _
    exact h.watched.logged.issued_of_quiet watched.logged (grows_step hs) hlog hx

/-- **Between two statements** of a run, nothing of its own is under way. -/
structure Rests (d : Deployment ι δ) (i : ι) (T : Token) (stamp : Int → δ) (t : Int)
    (s : System ι δ) : Prop extends LeasedUntil d i T stamp t s where
  idle : ∀ op n, ¬ s.UnderWay i op n

theorem Rests.follow (h : Rests d i T stamp t s) (alive : s.Alive d i T)
    (timely : s.Timely d i stamp ttl) (timely' : (s.follow d i e).Timely d i stamp ttl)
    (hstamp : StrictMono stamp) (ht : (s.follow d i e).time < t) :
    Rests d i T stamp t (s.follow d i e) ∧ (s.follow d i e).Alive d i T ∧
      ((s.follow d i e).Won i → s.Won i) ∧
      ∀ (n : Nat) (x : Issued ι), s.issued[n]? = some x → x.owner = some i →
        (s.follow d i e).issued[n]? = some x := by
  rcases follow_cases d i s e with hsame | ⟨he, hs⟩
  · rw [hsame]
    exact ⟨h, alive, id, fun _ _ hx _ => hx⟩
  obtain ⟨handle, last, hrest⟩ := h.watched.resting
  have aside : Aside i s (s.follow d i e) := aside_step hrest he hs
  rcases h.step alive timely timely' hstamp he hs ht with
    ⟨n, x, hx, howner, hfate, -⟩ | ⟨leased, alive', hwon, hissued⟩
  · exact absurd ⟨x, hx, howner, rfl, hfate⟩ (h.idle x.operation n)
  · exact ⟨⟨leased, fun op n hn => h.idle op n (aside.underWay hn)⟩, alive', hwon, hissued⟩

/-! ## A statement of a run -/

/-- **The statements of a run** under the token `T`: those of its claim, and its extensions. -/
inductive Mine (d : Deployment ι δ) (i : ι) (T : Token) (ttl : Duration) : Operation → Request → Prop
  | claim {r : Request} :
      Request.IsOf d.backend d.table .acquire (({ key := d.key i } : Handle).claimValues T ttl) r →
      Mine d i T ttl .acquire r
  | extension {r : Request} :
      Request.IsOf d.backend d.table .extend
        (({ key := d.key i, token := some T } : Handle).ownValues ttl) r →
      Mine d i T ttl .extend r

omit [DecidableEq ι] in
theorem Mine.of_extension (d : Deployment ι δ) (i : ι) (T : Token) (ttl : Duration) :
    Mine d i T ttl .extend ((d.manager i).request (d.manager i).extendStatement
      (({ key := d.key i, token := some T } : Handle).ownValues ttl)) := by
  refine .extension ?_
  rw [← d.backend_eq i, ← d.table_eq i]
  exact .extend

omit [DecidableEq ι] in
/-- The requests of a run are its own. -/
theorem Mine.sends {op : Operation} {r : Request} (h : Mine d i T ttl op r) (hown : s.Mints i T) :
    d.Sends s.Mints (some i) op r := by
  cases h with
  | claim hof =>
      exact .ofHandle (by simp) hof rfl ⟨Or.inr hown, Or.inl rfl, Or.inr hown⟩ fun _ => ⟨hown, rfl⟩
  | extension hof =>
      exact .ofHandle (by simp) hof rfl ⟨Or.inr hown, Or.inl rfl, Or.inl rfl⟩ (by simp)

/-- **A statement under way**, sent at the instant `since`: it is the only one of the run, and belongs
to a claim if the key has not been won. -/
structure Sent (d : Deployment ι δ) (i : ι) (T : Token) (stamp : Int → δ) (t since : Int) (n : Nat)
    (op : Operation) (r : Request) (s : System ι δ) : Prop extends LeasedUntil d i T stamp t s where
  issued : s.issued[n]? = some ⟨some i, op, r, .inFlight⟩
  only : ∀ op m, s.UnderWay i op m → m = n
  late : since ≤ s.time
  unclaimed : op = .acquire → ¬ s.Won i
  claimed : op = .extend → s.Won i

/-- **A statement that is done**. A claim that has counted has won the key, and every extension has
counted. -/
structure Done (d : Deployment ι δ) (i : ι) (T : Token) (stamp : Int → δ) (t : Int) (n : Nat)
    (op : Operation) (r : Request) (outcome : Except Violation Nat) (s : System ι δ) : Prop
    extends Rests d i T stamp t s where
  issued : s.issued[n]? = some ⟨some i, op, r, .done outcome⟩
  claim : op = .acquire → (s.Won i ↔ 0 < affectedRows outcome)
  extension : op = .extend → 0 < affectedRows outcome

section

variable {n : Nat} {op : Operation} {r : Request} {since : Int}

omit [DecidableEq ι] in
/-- What a claim has written that counts. -/
theorem LeasedUntil.row_of_claim (h : LeasedUntil d i T stamp t s) (unwon : ¬ s.Won i)
    (timely : s.Timely d i stamp ttl) (hstamp : StrictMono stamp) (hpos : 0 < d.backend.boundNanos ttl)
    (hof : Request.IsOf d.backend d.table .acquire (({ key := d.key i } : Handle).claimValues T ttl) r)
    {k : Nat} {table : Table δ} (heff : r.effect (d.clock.moment s.time) s.table = .ok (k + 1, table))
    (written : ∀ row, table.row? (d.key i) = some row →
      row.deadline = stamp (s.time + d.backend.boundNanos ttl)) :
    ∃ row, table.row? (d.key i) = some row ∧ row.token = T ∧
      row.deadline = stamp (s.time + d.backend.boundNanos ttl) := by
  have row := (hof.acts (by simp) heff).row
  have key : (({ key := d.key i } : Handle).claimValues T ttl).key = d.key i := rfl
  rw [key] at row
  generalize hold : s.table.row? (d.key i) = old at row
  generalize hnew : table.row? (d.key i) = new at row written
  cases row with
  | taken _ _ => exact ⟨_, rfl, rfl, written _ rfl⟩
  | @rewritten old _ claimable =>
      -- a row that the claim has found was expired or the run's own, and this one is neither
      exfalso
      have deadline := written old rfl
      rw [Row.isClaimable, Bool.or_eq_true, Bool.or_eq_true, decide_eq_true_eq, decide_eq_true_eq]
        at claimable
      rcases claimable with expired | unnamed | own
      · obtain ⟨now, hnow, hlt⟩ := Row.isExpired_iff.mp expired
        obtain rfl := Option.some.inj (timely.now.symm.trans hnow)
        exact hlt (deadline ▸ hstamp (by omega))
      · obtain ⟨j, -, hj⟩ := h.watched.sound.rows hold
        have empty : "" = old.token := unnamed
        exact h.watched.sound.nonempty j (empty ▸ hj)
      · exact unwon (h.watched.won ⟨old, hold, own.symm, h.watched.own⟩)

omit [DecidableEq ι] in
/-- An extension of a live lease counts. -/
theorem extension_counts (h : s.Lasts d i T stamp t) (ht : s.time < t)
    (timely : s.Timely d i stamp ttl) (hstamp : StrictMono stamp)
    (hof : Request.IsOf d.backend d.table .extend
      (({ key := d.key i, token := some T } : Handle).ownValues ttl) r) :
    ∃ table, r.effect (d.clock.moment s.time) s.table = .ok (1, table) ∧
      ∃ row, table.row? (d.key i) = some row ∧ row.token = T := by
  obtain ⟨old, hold, htoken, hlive⟩ := timely.live hstamp h ht
  obtain ⟨k, table, heff⟩ : ∃ k table, r.effect (d.clock.moment s.time) s.table = .ok (k, table) := by
    cases hof
    exact Backend.extend_counts _ _ timely.after
  have row := (hof.acts (by simp) heff).row
  have key : (({ key := d.key i, token := some T } : Handle).ownValues ttl).key = d.key i := rfl
  rw [key, hold] at row
  have own : old.isOwn (({ key := d.key i, token := some T } : Handle).ownValues ttl) := by
    rw [Row.isOwn, htoken]
    simp [Handle.ownValues]
  generalize hnew : table.row? (d.key i) = new at row
  cases row with
  | unextended hother => exact absurd (hother old rfl) (by simp [own, hlive])
  | extended _ _ _ => exact ⟨table, heff, _, hnew, htoken⟩

/-- **A statement of the run that takes effect**: nothing of the run is under way any more, and the
log tells what has come of it. -/
structure Settled (d : Deployment ι δ) (i : ι) (T : Token) (n : Nat) (op : Operation) (r : Request)
    (outcome : Except Violation Nat) (s s' : System ι δ) : Prop where
  watched : Watched d i T s'
  idle : ∀ op m, ¬ s'.UnderWay i op m
  issued : s'.issued[n]? = some ⟨some i, op, r, .done outcome⟩
  log : s'.log =
    ⟨some i, op, n, s.time, affectedRows outcome, s'.table.row? (d.key i)⟩ :: s.log
  time : s'.time = s.time
  effect : r.outcome (d.clock.moment s.time) s.table = (outcome, s'.table)

theorem Sent.settled (h : Sent d i T stamp t since n op r s) :
    ∃ outcome, Settled d i T n op r outcome s (s.execute d n ⟨some i, op, r, .inFlight⟩) := by
  have step : s.step d .anything (.effect n) = some (s.execute d n ⟨some i, op, r, .inFlight⟩) :=
    step_effect h.issued rfl (Or.inl rfl)
  have done := getElem?_execute_self (d := d) h.issued
  refine ⟨_, h.watched.step (by simp [Move.starts]) step, ?_, done, rfl, rfl, rfl⟩
  intro op' m hm
  obtain rfl := h.only op' m ((aside_execute h.issued rfl).underWay hm)
  obtain ⟨y, hy, -, -, hfate⟩ := hm
  obtain rfl := Option.some.inj (done.symm.trans hy)
  exact absurd hfate (by simp)

section

variable {outcome : Except Violation Nat}

omit [DecidableEq ι] in
/-- What the run has written lies as far ahead as it should. -/
theorem Settled.written (h : Settled d i T n op r outcome s s') (hop : op = .acquire ∨ op = .extend)
    (timely' : s'.Timely d i stamp ttl) (hk : 0 < affectedRows outcome) {row : Row δ}
    (hrow : s'.table.row? (d.key i) = some row) :
    row.deadline = stamp (s.time + d.backend.boundNanos ttl) :=
  timely'.written _ (h.log ▸ List.mem_cons_self) _ ⟨rfl, hop, hk, row, hrow, rfl⟩

omit [DecidableEq ι] in
/-- The effect of a statement that has counted. -/
theorem Settled.effect_of_counted (h : Settled d i T n op r outcome s s')
    (hk : 0 < affectedRows outcome) :
    ∃ k, r.effect (d.clock.moment s.time) s.table = .ok (k + 1, s'.table) := by
  have effect := h.effect
  unfold Request.outcome at effect
  split at effect
  · rename_i k table heff
    obtain ⟨rfl, rfl⟩ := Prod.mk.inj effect
    obtain ⟨k, rfl⟩ := Nat.exists_eq_add_one.mpr hk
    exact ⟨k, heff⟩
  · obtain ⟨rfl, -⟩ := Prod.mk.inj effect
    exact absurd hk (Nat.lt_irrefl 0)

omit [DecidableEq ι] in
/-- A claim of the run that takes effect: if it counts, the key is won. -/
theorem Sent.claim_done (h : Sent d i T stamp t since n .acquire r s)
    (settled : Settled d i T n .acquire r outcome s s')
    (hof : Request.IsOf d.backend d.table .acquire (({ key := d.key i } : Handle).claimValues T ttl) r)
    (alive : s.Alive d i T) (timely : s.Timely d i stamp ttl) (timely' : s'.Timely d i stamp ttl)
    (hstamp : StrictMono stamp) (hlate : s.time < since + d.backend.boundNanos ttl) :
    Done d i T stamp (since + d.backend.boundNanos ttl) n .acquire r outcome s' ∧ s'.Alive d i T := by
  have hsince := h.late
  have unwon := h.unclaimed rfl
  have won : s'.Won i ↔ 0 < affectedRows outcome := by
    constructor
    · rintro ⟨c, hc, hclaimed⟩
      rcases List.mem_cons.mp (settled.log ▸ hc) with rfl | hold
      · exact hclaimed.counted
      · exact absurd ⟨c, hold, hclaimed⟩ unwon
    · intro hk
      exact ⟨_, settled.log ▸ List.mem_cons_self, rfl, rfl, hk⟩
  have lasts : s'.Won i → s'.Lasts d i T stamp (since + d.backend.boundNanos ttl) := by
    intro hwon
    have hk := won.mp hwon
    obtain ⟨k, heff⟩ := settled.effect_of_counted hk
    obtain ⟨row, hrow, htoken, hdeadline⟩ := h.row_of_claim unwon timely hstamp (by omega) hof heff
      fun row => settled.written (Or.inl rfl) timely' hk
    exact ⟨row, _, hrow, htoken, hdeadline, by omega⟩
  refine ⟨⟨⟨⟨settled.watched, lasts⟩, settled.idle⟩, settled.issued, fun _ => won, ?_⟩, ?_⟩
  · intro hop
    exact absurd hop (by simp)
  · apply alive.cons settled.log
    · intro hwon
      exact timely'.live hstamp (lasts hwon) (settled.time ▸ hlate)
    · intro _ hop
      exact absurd hop (by simp)
    · exact fun hwon => absurd hwon unwon

omit [DecidableEq ι] in
/-- An extension of the run that takes effect in time: it counts. -/
theorem Sent.extension_done (h : Sent d i T stamp t since n .extend r s)
    (settled : Settled d i T n .extend r outcome s s')
    (hof : Request.IsOf d.backend d.table .extend
      (({ key := d.key i, token := some T } : Handle).ownValues ttl) r)
    (alive : s.Alive d i T) (timely : s.Timely d i stamp ttl) (timely' : s'.Timely d i stamp ttl)
    (hstamp : StrictMono stamp) (ht : s.time < t)
    (hlate : s.time < since + d.backend.boundNanos ttl) :
    Done d i T stamp (since + d.backend.boundNanos ttl) n .extend r outcome s' ∧ s'.Alive d i T := by
  have hsince := h.late
  obtain ⟨table, heff, row, hrow, htoken⟩ :=
    extension_counts (h.lasts (h.claimed rfl)) ht timely hstamp hof
  obtain ⟨rfl, rfl⟩ : outcome = .ok 1 ∧ s'.table = table := by
    have effect := settled.effect
    rw [Request.outcome, heff] at effect
    exact ⟨(Prod.mk.inj effect).1.symm, (Prod.mk.inj effect).2.symm⟩
  have counted : 0 < affectedRows (.ok 1) := Nat.one_pos
  have lasts : s'.Lasts d i T stamp (since + d.backend.boundNanos ttl) :=
    ⟨row, _, hrow, htoken, settled.written (Or.inr rfl) timely' counted hrow, by omega⟩
  refine ⟨⟨⟨⟨settled.watched, fun _ => lasts⟩, settled.idle⟩, settled.issued, ?_, fun _ => counted⟩, ?_⟩
  · intro hop
    exact absurd hop (by simp)
  · apply alive.cons settled.log
    · exact fun _ => timely'.live hstamp lasts (settled.time ▸ hlate)
    · exact fun _ _ => counted
    · rintro - ⟨j, -, -, hclaimed⟩
      exact absurd hclaimed.operation (by simp)

end

/-- **A statement of the run takes effect**: from then on the lease lasts as long as was asked for. -/
theorem Sent.execute (h : Sent d i T stamp t since n op r s) (mine : Mine d i T ttl op r)
    (alive : s.Alive d i T) (timely : s.Timely d i stamp ttl)
    (timely' : (s.execute d n ⟨some i, op, r, .inFlight⟩).Timely d i stamp ttl)
    (hstamp : StrictMono stamp) (ht : s.time < t)
    (hlate : s.time < since + d.backend.boundNanos ttl) :
    ∃ outcome, Done d i T stamp (since + d.backend.boundNanos ttl) n op r outcome
        (s.execute d n ⟨some i, op, r, .inFlight⟩) ∧
      (s.execute d n ⟨some i, op, r, .inFlight⟩).Alive d i T := by
  obtain ⟨outcome, settled⟩ := h.settled
  cases mine with
  | claim hof => exact ⟨outcome, h.claim_done settled hof alive timely timely' hstamp hlate⟩
  | extension hof =>
      exact ⟨outcome, h.extension_done settled hof alive timely timely' hstamp ht hlate⟩

/-- **A move of the others** while a statement of the run is under way. -/
theorem Sent.follow (h : Sent d i T stamp t since n op r s) (mine : Mine d i T ttl op r)
    (alive : s.Alive d i T) (timely : s.Timely d i stamp ttl)
    (timely' : (s.follow d i e).Timely d i stamp ttl) (hstamp : StrictMono stamp)
    (ht : (s.follow d i e).time < t)
    (hlate : (s.follow d i e).time < since + d.backend.boundNanos ttl) :
    (Sent d i T stamp t since n op r (s.follow d i e) ∨ ∃ outcome,
      Done d i T stamp (since + d.backend.boundNanos ttl) n op r outcome (s.follow d i e)) ∧
      (s.follow d i e).Alive d i T := by
  rcases follow_cases d i s e with hsame | ⟨he, hs⟩
  · rw [hsame]
    exact ⟨Or.inl h, alive⟩
  obtain ⟨handle, last, hrest⟩ := h.watched.resting
  have aside : Aside i s (s.follow d i e) := aside_step hrest he hs
  rcases h.step alive timely timely' hstamp he hs ht with
    ⟨m, x, hx, howner, hfate, hexec⟩ | ⟨leased, alive', hwon, hissued⟩
  · obtain rfl := h.only x.operation m ⟨x, hx, howner, rfl, hfate⟩
    obtain rfl := Option.some.inj (h.issued.symm.trans hx)
    rw [hexec] at timely' ht hlate ⊢
    obtain ⟨outcome, done, alive'⟩ := h.execute mine alive timely timely' hstamp ht hlate
    exact ⟨Or.inr ⟨outcome, done⟩, alive'⟩
  · have late : since ≤ (s.follow d i e).time := h.late.trans (time_le_follow d i s e)
    refine ⟨Or.inl ⟨leased, hissued n _ h.issued rfl, ?_, late, ?_, ?_⟩, alive'⟩
    · exact fun op' m hm => h.only op' m (aside.underWay hm)
    · exact fun hop won => h.unclaimed hop (hwon won)
    · exact fun hop => (h.claimed hop).mono (grows_step hs)

theorem Done.follow {outcome : Except Violation Nat} (h : Done d i T stamp t n op r outcome s)
    (alive : s.Alive d i T) (timely : s.Timely d i stamp ttl)
    (timely' : (s.follow d i e).Timely d i stamp ttl) (hstamp : StrictMono stamp)
    (ht : (s.follow d i e).time < t) :
    Done d i T stamp t n op r outcome (s.follow d i e) ∧ (s.follow d i e).Alive d i T := by
  obtain ⟨rests, alive', hwon, hissued⟩ := h.toRests.follow alive timely timely' hstamp ht
  refine ⟨⟨rests, hissued n _ h.issued rfl, ?_, h.extension⟩, alive'⟩
  intro hop
  constructor
  · exact fun won => (h.claim hop).mp (hwon won)
  · intro hk
    exact ((h.claim hop).mpr hk).mono (grows_follow d i s e)

end

end

end System

end LeaseLock
