/-
# LeaseLock.Proofs.System -- many handles over one lease table

A **deployment** binds any number of handles, each with a manager and a key of its own, to one lease
table. Its **system** moves in small steps: a handle starts a call, a statement that was issued takes
effect, a call gets a reply, time passes. A statement takes effect at most once, as a whole, and may
do so at any moment after it was issued, also when nobody waits for it any more; `Rules` can forbid
that, and can forbid that calls are dropped or that replies say anything but the truth.

What a system has been through is kept in its log of effects, newest first, so that a law about the
order of events is a law about the log of a reachable system.

Several extensions of one handle may overlap, since they do not change it. A run of overlapping
extensions is here a run of extensions one after the other whose replies are given up at once.
-/
import LeaseLock.Handle
import LeaseLock.Proofs.Statement

namespace LeaseLock

/-! ## Deployments -/

/-- **Clock** of a database: what its statements read at each instant. It never goes back. -/
structure Clock (δ : Type) [LinearOrder δ] where
  moment : Int → Moment δ
  steady : ∀ {t u : Int} {a b : δ},
    t ≤ u → (moment t).now = some a → (moment u).now = some b → a ≤ b

/-- A deadline has passed at a time: the clock has shown it, or something later, by then. -/
def Clock.Passed {δ : Type} [LinearOrder δ] (c : Clock δ) (deadline : δ) (t : Int) : Prop :=
  ∃ u now, u ≤ t ∧ (c.moment u).now = some now ∧ deadline ≤ now

/-- **Deployment**: one lease table, and the handles of type `ι` that work on it. -/
structure Deployment (ι δ : Type) [LinearOrder δ] where
  backend : Backend
  table : String
  clock : Clock δ
  manager : ι → Manager
  key : ι → String
  backend_eq : ∀ i, (manager i).dialect.backend = backend
  table_eq : ∀ i, (manager i).tableName = table

/-- The integers as a clock: a deadline is the time plus the time to live. -/
def Clock.integral : Clock Int where
  moment t := ⟨some t, fun ttl => some (t + ttl)⟩
  steady h ha hb := by
    obtain rfl := Option.some.inj ha
    obtain rfl := Option.some.inj hb
    exact h

/-- A deployment whose handles share one dialect and wait for answers as long as it takes. -/
def Deployment.uniform {ι δ : Type} [LinearOrder δ] (dialect : Dialect) (table : String)
    (clock : Clock δ) (key : ι → String) : Deployment ι δ where
  backend := dialect.backend
  table
  clock
  manager _ := ⟨dialect, table, none⟩
  key
  backend_eq _ := rfl
  table_eq _ := rfl

/-- The names of two handles. -/
inductive Duellist where
  | holder
  | rival
deriving DecidableEq, Repr, Inhabited

/-- Two handles for one key. -/
def Deployment.duel (dialect : Dialect) (table : String) : Deployment Duellist Int :=
  .uniform dialect table .integral fun _ => "job"

/-- What may go on in a system. -/
structure Rules where
  /-- A statement may take effect after its call has returned. -/
  late : Bool
  /-- A call may be dropped by its caller. -/
  drops : Bool
  /-- An answer with affected rows, or with a duplicate key, is true. -/
  honest : Bool

/-- Anything may go on. -/
def Rules.anything : Rules := ⟨true, true, false⟩

/-- Statements take effect before their call returns or never, and every call runs to its end. -/
def Rules.orderly : Rules := ⟨false, false, true⟩

/-! ## Statements under way -/

/-- What has become of a statement. -/
inductive Fate where
  | inFlight
  /-- It ran, with these affected rows or this failure. -/
  | done (outcome : Except Violation Nat)

namespace Fate

def isInFlight : Fate → Bool
  | .inFlight => true
  | .done _ => false

/-- Whether a reply is true of a statement. A lost answer is true of any: the caller gave up, or the
connection broke. -/
def allows : Fate → Reply → Bool
  | _, .overran _ => true
  | _, .answered (.error (.database _)) => true
  | .done (.ok n), .answered (.ok k) => n = k
  | .done (.error .duplicateKey), .answered (.error (.duplicateKey _)) => true
  | _, _ => false

end Fate

/-- A reply that tells nothing: the caller gave up, or the connection broke. -/
inductive Reply.Lost : Reply → Prop
  | overran (limit : Duration) : Lost (.overran limit)
  | broken (cause : Fault) : Lost (.answered (.error (.database cause)))

section

variable {reply : Reply}

theorem Reply.Lost.rows (h : reply.Lost) : ∃ e, reply.rows = .error e := by
  cases h <;> exact ⟨_, rfl⟩

theorem Reply.Lost.insertedRows (h : reply.Lost) : ∃ e, reply.insertedRows = .error e := by
  cases h <;> exact ⟨_, rfl⟩

theorem Reply.rows_eq_ok {n : Nat} (h : reply.rows = .ok n) : reply = .answered (.ok n) := by
  rcases reply with (_ | k) | _
  · exact absurd h (by simp [Reply.rows])
  · obtain rfl := Except.ok.inj h
    rfl
  · exact absurd h (by simp [Reply.rows])

/-- A verdict that a key is won rests on an affected row. -/
theorem Reply.affected_of_rows (h : reply.rows.map (fun n => decide (0 < n)) = .ok true) :
    ∃ n, reply = .answered (.ok (n + 1)) := by
  cases hrows : reply.rows with
  | error e => exact absurd h (by simp [hrows, Except.map])
  | ok n =>
      cases n with
      | zero => exact absurd h (by simp [hrows, Except.map])
      | succ n => exact ⟨n, Reply.rows_eq_ok hrows⟩

theorem Reply.affected_of_insertedRows (h : reply.insertedRows.map (fun n => decide (0 < n)) = .ok true) :
    ∃ n, reply = .answered (.ok (n + 1)) := by
  rcases reply with ((_ | _) | _) | _
  · exact absurd h (by simp [Reply.insertedRows, Except.map])
  · exact Reply.affected_of_rows h
  · exact Reply.affected_of_rows h
  · exact Reply.affected_of_rows h

/-- **What an honest reply says**: nothing, or the affected rows, or that a key was there already. -/
theorem Fate.allows_cases {fate : Fate} (h : fate.allows reply) :
    reply.Lost ∨ (∃ n, fate = .done (.ok n) ∧ reply = .answered (.ok n)) ∨
      ∃ cause, fate = .done (.error .duplicateKey) ∧
        reply = .answered (.error (.duplicateKey cause)) := by
  cases reply with
  | overran limit => exact Or.inl (.overran limit)
  | answered result =>
      rcases result with (cause | cause) | n
      · rcases fate with _ | ((_ | _) | _) <;> simp_all [Fate.allows]
      · exact Or.inl (.broken cause)
      · rcases fate with _ | (_ | m)
        · simp [Fate.allows] at h
        · simp [Fate.allows] at h
        · have hn : m = n := of_decide_eq_true h
          exact Or.inr (Or.inl ⟨m, rfl, hn ▸ rfl⟩)

end

/-- A statement that was issued. A purge has no owner. -/
structure Issued (ι : Type) where
  owner : Option ι
  operation : Operation
  request : Request
  fate : Fate

/-- One effect: whose statement it was, when it ran, how many rows it affected, and what stood at its
owner's key right after it. -/
structure Entry (ι δ : Type) where
  owner : Option ι
  operation : Operation
  statement : Nat
  time : Int
  affected : Nat
  row : Option (Row δ)

/-! ## Calls of a handle -/

namespace Handle

/-- Without a time to live nothing is sent. -/
theorem acquire_of_isZero (h : Handle) {ttl : Duration} (httl : ttl.isZero = true) (m : Manager)
    (fresh : Token) : h.acquire m fresh ttl = .done h (.error (.config (.invalidTtl ttl))) [] :=
  if_pos httl

theorem extend_of_isZero (h : Handle) {ttl : Duration} (httl : ttl.isZero = true) (m : Manager) :
    h.extend m ttl = .done h (.error (.config (.invalidTtl ttl))) [] :=
  if_pos httl

/-- Where no row can be the handle's own, nothing is sent. -/
theorem extend_of_isIdle (h : Handle) {ttl : Duration} (httl : ttl.isZero = false)
    (hidle : h.isIdle = true) (m : Manager) :
    h.extend m ttl = .done h (.error (.lostLease h.key)) [] := by
  rw [extend, httl, hidle]
  rfl

theorem release_of_isIdle (h : Handle) (hidle : h.isIdle = true) (m : Manager) :
    h.release m = .done h (.error (.lostLease h.key)) [] :=
  if_pos hidle

/-- **What a handle sends to acquire**, and what it makes of each verdict of the database. -/
theorem exists_acquire_verdicts (h : Handle) {ttl : Duration} (httl : ttl.isZero = false)
    (m : Manager) (fresh : Token) :
    ∃ next, h.acquire m fresh ttl =
        m.claim (h.claimValues (h.nextToken fresh) ttl) { h with unconfirmed := none } next ∧
      next (.ok true) = .done { h with token := some (h.nextToken fresh), unconfirmed := none }
        (.ok ()) [.acquired h.key ttl] ∧
      next (.ok false) = .done { h with token := none, unconfirmed := none }
        (.error (.contention h.key)) [] ∧
      ∀ e, next (.error e) = .done { h with unconfirmed := some (h.nextToken fresh) }
        (.error (.transport h.key .acquire e)) [] := by
  unfold acquire
  rw [httl, if_neg (by simp)]
  exact ⟨_, rfl, rfl, rfl, fun e => rfl⟩

/-- A claim that is not won leaves an error. -/
theorem exists_acquire (h : Handle) {ttl : Duration} (httl : ttl.isZero = false) (m : Manager)
    (fresh : Token) :
    ∃ next, h.acquire m fresh ttl =
        m.claim (h.claimValues (h.nextToken fresh) ttl) { h with unconfirmed := none } next ∧
      next (.ok true) = .done { h with token := some (h.nextToken fresh), unconfirmed := none }
        (.ok ()) [.acquired h.key ttl] ∧
      ∀ verdict, verdict ≠ .ok true → ∃ state e, next verdict = .done state (.error e) [] := by
  obtain ⟨next, hclaim, hwon, hheld, hfailed⟩ := h.exists_acquire_verdicts httl m fresh
  refine ⟨next, hclaim, hwon, fun verdict hverdict => ?_⟩
  rcases verdict with e | _ | _
  · exact ⟨_, _, hfailed e⟩
  · exact ⟨_, _, hheld⟩
  · exact absurd rfl hverdict

/-- Where one statement carries the claim, an affected row makes the handle the holder. -/
theorem exists_acquire_single (h : Handle) {ttl : Duration} (httl : ttl.isZero = false) {m : Manager}
    {claim : Statement} (hplan : m.claimPlan = .single claim) (fresh : Token) :
    ∃ resume, h.acquire m fresh ttl =
        .ask (m.request claim (h.claimValues (h.nextToken fresh) ttl)) { h with unconfirmed := none }
          resume ∧
      ∀ n, resume (.answered (.ok (n + 1))) =
        .done { h with token := some (h.nextToken fresh), unconfirmed := none } (.ok ())
          [.acquired h.key ttl] := by
  obtain ⟨next, hnext, hwon, -⟩ := h.exists_acquire httl m fresh
  refine ⟨fun reply => next (reply.rows.map fun n => decide (0 < n)), ?_, fun n => ?_⟩
  · rw [hnext, Manager.claim, hplan]
    rfl
  · show next (.ok (decide (0 < n + 1))) = _
    rw [decide_eq_true n.succ_pos, hwon]

/-- **What a handle sends to extend**, and what it makes of each count of rows. -/
theorem exists_extend_answers (h : Handle) {ttl : Duration} (httl : ttl.isZero = false)
    (hidle : h.isIdle = false) (m : Manager) :
    ∃ next, h.extend m ttl = m.send m.extendStatement (h.ownValues ttl) h next ∧
      next (.ok 0) = .done h (.error (.lostLease h.key)) [] ∧
      (∀ n, next (.ok (n + 1)) = .done h (.ok ()) [.extended h.key ttl]) ∧
      ∀ e, next (.error e) = .done h (.error (.transport h.key .extend e)) [] := by
  unfold extend
  rw [httl, hidle, if_neg (by simp), if_neg (by simp)]
  exact ⟨_, rfl, rfl, fun n => rfl, fun e => rfl⟩

/-- **What a handle sends to release**, and what it makes of each count of rows. -/
theorem exists_release_answers (h : Handle) (hidle : h.isIdle = false) (m : Manager) :
    ∃ next, h.release m = m.send m.releaseStatement (h.ownValues .zero) h next ∧
      next (.ok 0) = .done { h with token := none, unconfirmed := none }
        (.error (.lostLease h.key)) [.foreignAtRelease h.key] ∧
      (∀ n, next (.ok (n + 1)) = .done { h with token := none, unconfirmed := none } (.ok ())
        [.released h.key]) ∧
      ∀ e, next (.error e) = .done h (.error (.transport h.key .release e)) [] := by
  unfold release
  rw [hidle, if_neg (by simp)]
  exact ⟨_, rfl, rfl, fun n => rfl, fun e => rfl⟩

/-- A release that counts no row leaves an error. -/
theorem exists_release (h : Handle) (hidle : h.isIdle = false) (m : Manager) :
    ∃ resume, h.release m = .ask (m.request m.releaseStatement (h.ownValues .zero)) h resume ∧
      (∀ n, resume (.answered (.ok (n + 1))) =
        .done { h with token := none, unconfirmed := none } (.ok ()) [.released h.key]) ∧
      ∀ reply, (∀ n, reply ≠ .answered (.ok (n + 1))) →
        ∃ state e events, resume reply = .done state (.error e) events := by
  obtain ⟨next, hsend, hmissed, hfound, hfailed⟩ := h.exists_release_answers hidle m
  refine ⟨fun reply => next reply.rows, hsend, hfound, fun reply hreply => ?_⟩
  rcases reply with (e | _ | n) | limit
  · exact ⟨_, _, _, hfailed _⟩
  · exact ⟨_, _, _, hmissed⟩
  · exact absurd rfl (hreply n)
  · exact ⟨_, _, _, hfailed _⟩

end Handle

/-! ## Systems -/

/-- A handle and its call in progress, if there is one. -/
inductive Client where
  /-- No call is in progress; the last one ended like this. -/
  | resting (handle : Handle) (last : Option (Operation × Except LockError Unit))
  /-- A call waits for the answer to a statement, which is known by its number. -/
  | waiting (operation : Operation) (statement : Nat) (held : Handle)
    (resume : Reply → Call Handle (Except LockError Unit))

/-- **System**: the table and its clock, the handles, the statements issued so far, the tokens minted
so far, and the log of effects, newest first. -/
structure System (ι δ : Type) where
  time : Int
  table : Table δ
  clients : ι → Client
  issued : List (Issued ι) := []
  minted : List (ι × Token) := []
  log : List (Entry ι δ) := []

/-- What may happen next. -/
inductive Move (ι : Type) where
  | acquire (i : ι) (fresh : Token) (ttl : Duration)
  | extend (i : ι) (ttl : Duration)
  | release (i : ι)
  /-- The manager of a handle purges the table. -/
  | purge (i : ι)
  /-- A statement takes effect. -/
  | effect (statement : Nat)
  | reply (i : ι) (r : Reply)
  | drop (i : ι)
  | tick (time : Int)

/-- Whether a move starts a call of a handle. -/
def Move.starts {ι : Type} (i : ι) : Move ι → Prop
  | .acquire j _ _ | .extend j _ | .release j => i = j
  | _ => False

/-- The outcome of a request, and the table it leaves behind. -/
def Request.outcome {δ : Type} [LT δ] [DecidableLT δ] (r : Request) (m : Moment δ) (t : Table δ) :
    Except Violation Nat × Table δ :=
  match r.effect m t with
  | .ok (n, t') => (.ok n, t')
  | .error v => (.error v, t)

/-- The rows that count as affected. A statement that failed affected none. -/
def affectedRows : Except Violation Nat → Nat
  | .ok n => n
  | .error _ => 0

namespace System

variable {ι δ : Type} [DecidableEq ι] [LinearOrder δ]

/-- A deployment at its start: an empty table and idle handles. -/
def start (d : Deployment ι δ) (time : Int) : System ι δ where
  time
  table := ∅
  clients i := .resting { key := d.key i } none

/-- A statement is sent. -/
def issue (s : System ι δ) (owner : Option ι) (op : Operation) (r : Request) : System ι δ :=
  { s with issued := s.issued ++ [⟨owner, op, r, .inFlight⟩] }

/-- A handle's call goes on: it ends, or it sends its next statement. -/
def proceed (s : System ι δ) (i : ι) (op : Operation) :
    Call Handle (Except LockError Unit) → System ι δ
  | .done h result _ => { s with clients := Function.update s.clients i (.resting h (some (op, result))) }
  | .ask r held resume =>
    { s.issue (some i) op r with
      clients := Function.update s.clients i (.waiting op s.issued.length held resume) }

/-- Whether a handle's call waits for a statement. -/
def awaits (s : System ι δ) (i : ι) (n : Nat) : Bool :=
  match s.clients i with
  | .waiting _ k _ _ => k = n
  | .resting _ _ => false

/-- Whether a reply is true of a statement. -/
def truthful (s : System ι δ) (n : Nat) (r : Reply) : Bool :=
  s.issued[n]?.any fun x => x.fate.allows r

/-- A statement takes effect. -/
def execute (d : Deployment ι δ) (s : System ι δ) (n : Nat) (x : Issued ι) : System ι δ :=
  let (outcome, table) := x.request.outcome (d.clock.moment s.time) s.table
  { s with
    table
    issued := s.issued.set n { x with fate := .done outcome }
    log := ⟨x.owner, x.operation, n, s.time, affectedRows outcome,
      x.owner.bind fun i => table.row? (d.key i)⟩ :: s.log }

/-- **One step.** A move that is not possible gives nothing. -/
def step (d : Deployment ι δ) (rules : Rules) (s : System ι δ) : Move ι → Option (System ι δ)
  | .acquire i fresh ttl =>
    match s.clients i with
    | .resting h _ =>
      if fresh ≠ "" ∧ ∀ p ∈ s.minted, p.2 ≠ fresh then
        some <| proceed { s with minted := (i, fresh) :: s.minted } i .acquire
          (h.acquire (d.manager i) fresh ttl)
      else none
    | .waiting _ _ _ _ => none
  | .extend i ttl =>
    match s.clients i with
    | .resting h _ => some (s.proceed i .extend (h.extend (d.manager i) ttl))
    | .waiting _ _ _ _ => none
  | .release i =>
    match s.clients i with
    | .resting h _ => some (s.proceed i .release (h.release (d.manager i)))
    | .waiting _ _ _ _ => none
  | .purge i =>
    match (d.manager i).purge with
    | .ask r _ _ => some (s.issue none .purgeExpired r)
    | .done _ _ _ => none
  | .effect n =>
    match s.issued[n]? with
    | some x =>
      -- a statement that nobody waits for any more is late
      if x.fate.isInFlight ∧ (rules.late ∨ ∀ i, x.owner = some i → s.awaits i n) then
        some (s.execute d n x)
      else none
    | none => none
  | .reply i r =>
    match s.clients i with
    | .waiting op n _ resume =>
      -- where replies are not honest, the network may answer anything
      if rules.honest → s.truthful n r then some (s.proceed i op (resume r)) else none
    | .resting _ _ => none
  | .drop i =>
    match s.clients i with
    | .waiting _ _ held _ =>
      if rules.drops then
        some { s with clients := Function.update s.clients i (.resting held none) }
      else none
    | .resting _ _ => none
  | .tick time => if s.time ≤ time then some { s with time } else none

/-- A run: one step after the other. -/
def run (d : Deployment ι δ) (rules : Rules) : System ι δ → List (Move ι) → Option (System ι δ)
  | s, [] => some s
  | s, e :: es => (s.step d rules e).bind fun s' => s'.run d rules es

/-- A run from the start at time zero. -/
def play (d : Deployment ι δ) (rules : Rules) (es : List (Move ι)) : Option (System ι δ) :=
  (start d 0).run d rules es

/-- The systems that some run reaches from the start. -/
inductive Reachable (d : Deployment ι δ) (rules : Rules) : System ι δ → Prop
  | start (time : Int) : Reachable d rules (start d time)
  | step {s s' : System ι δ} {e : Move ι} :
      Reachable d rules s → s.step d rules e = some s' → Reachable d rules s'

/-! ## What a call's progress leaves alone -/

section

omit [LinearOrder δ]

omit [DecidableEq ι] in
theorem awaits_iff {s : System ι δ} {i : ι} {n : Nat} :
    s.awaits i n = true ↔ ∃ op held resume, s.clients i = .waiting op n held resume := by
  unfold awaits
  cases s.clients i with
  | resting handle last => simp
  | waiting op k held resume =>
      rw [decide_eq_true_eq]
      constructor
      · rintro rfl
        exact ⟨op, held, resume, rfl⟩
      · rintro ⟨_, _, _, h⟩
        exact (Client.waiting.inj h).2.1

omit [DecidableEq ι] in
theorem getElem?_issue (s : System ι δ) (owner : Option ι) (op : Operation) (r : Request) {n : Nat}
    {x : Issued ι} (h : s.issued[n]? = some x) : (s.issue owner op r).issued[n]? = some x := by
  show (s.issued ++ _)[n]? = some x
  rw [List.getElem?_append_left (List.getElem?_eq_some_iff.mp h).1, h]

omit [DecidableEq ι] in
/-- A statement was there before another was issued, or it is the new one. -/
theorem issue_cases {s : System ι δ} {owner : Option ι} {op : Operation} {r : Request} {n : Nat}
    {x : Issued ι} (h : (s.issue owner op r).issued[n]? = some x) :
    s.issued[n]? = some x ∨ n = s.issued.length ∧ x = ⟨owner, op, r, .inFlight⟩ := by
  have h : (s.issued ++ [⟨owner, op, r, .inFlight⟩])[n]? = some x := h
  rw [List.getElem?_append] at h
  split at h
  · exact Or.inl h
  · rw [List.getElem?_singleton] at h
    split at h
    · exact Or.inr ⟨by omega, (Option.some.inj h).symm⟩
    · exact absurd h (by simp)

variable (s : System ι δ) (i : ι) (op : Operation) (call : Call Handle (Except LockError Unit))

theorem proceed_done_clients (h : Handle) (result : Except LockError Unit) (events : List Event) :
    (s.proceed i op (.done h result events)).clients i = .resting h (some (op, result)) :=
  Function.update_self ..

theorem proceed_ask_clients (r : Request) (held : Handle)
    (resume : Reply → Call Handle (Except LockError Unit)) :
    (s.proceed i op (.ask r held resume)).clients i = .waiting op s.issued.length held resume :=
  Function.update_self ..

@[simp]
theorem proceed_table : (s.proceed i op call).table = s.table := by cases call <;> rfl

@[simp]
theorem proceed_log : (s.proceed i op call).log = s.log := by cases call <;> rfl

@[simp]
theorem proceed_time : (s.proceed i op call).time = s.time := by cases call <;> rfl

@[simp]
theorem proceed_minted : (s.proceed i op call).minted = s.minted := by cases call <;> rfl

end

/-! ## Steps by cases -/

/-- **What a step can do**, move by move. -/
inductive Step (d : Deployment ι δ) (rules : Rules) (s : System ι δ) :
    Move ι → System ι δ → Prop
  | acquire {i : ι} {fresh : Token} {ttl : Duration} {h : Handle}
      {last : Option (Operation × Except LockError Unit)} :
      s.clients i = .resting h last → fresh ≠ "" → (∀ p ∈ s.minted, p.2 ≠ fresh) →
      Step d rules s (.acquire i fresh ttl)
        (proceed { s with minted := (i, fresh) :: s.minted } i .acquire
          (h.acquire (d.manager i) fresh ttl))
  | extend {i : ι} {ttl : Duration} {h : Handle}
      {last : Option (Operation × Except LockError Unit)} :
      s.clients i = .resting h last →
      Step d rules s (.extend i ttl) (s.proceed i .extend (h.extend (d.manager i) ttl))
  | release {i : ι} {h : Handle} {last : Option (Operation × Except LockError Unit)} :
      s.clients i = .resting h last →
      Step d rules s (.release i) (s.proceed i .release (h.release (d.manager i)))
  | purge {i : ι} {r : Request} {resume : Reply → Call Unit (Except LockError Nat)} :
      (d.manager i).purge = .ask r () resume →
      Step d rules s (.purge i) (s.issue none .purgeExpired r)
  | effect {n : Nat} {x : Issued ι} :
      s.issued[n]? = some x → x.fate = .inFlight →
      (rules.late ∨ ∀ i, x.owner = some i → s.awaits i n) →
      Step d rules s (.effect n) (s.execute d n x)
  | reply {i : ι} {r : Reply} {op : Operation} {n : Nat} {held : Handle}
      {resume : Reply → Call Handle (Except LockError Unit)} :
      s.clients i = .waiting op n held resume → (rules.honest → s.truthful n r) →
      Step d rules s (.reply i r) (s.proceed i op (resume r))
  | drop {i : ι} {op : Operation} {n : Nat} {held : Handle}
      {resume : Reply → Call Handle (Except LockError Unit)} :
      s.clients i = .waiting op n held resume → rules.drops →
      Step d rules s (.drop i)
        { s with clients := Function.update s.clients i (.resting held none) }
  | tick {time : Int} : s.time ≤ time → Step d rules s (.tick time) { s with time }

theorem step_cases {d : Deployment ι δ} {rules : Rules} {s s' : System ι δ} {e : Move ι}
    (h : s.step d rules e = some s') : Step d rules s e s' := by
  cases e with
  | acquire i fresh ttl =>
      simp only [step] at h
      split at h
      · rename_i hc
        split at h
        · rename_i hfresh
          obtain rfl := Option.some.inj h
          exact .acquire hc hfresh.1 hfresh.2
        · simp at h
      · simp at h
  | extend i ttl =>
      simp only [step] at h
      split at h
      · rename_i hc
        obtain rfl := Option.some.inj h
        exact .extend hc
      · simp at h
  | release i =>
      simp only [step] at h
      split at h
      · rename_i hc
        obtain rfl := Option.some.inj h
        exact .release hc
      · simp at h
  | purge i =>
      simp only [step] at h
      split at h
      · rename_i hp
        obtain rfl := Option.some.inj h
        exact .purge hp
      · simp at h
  | effect n =>
      simp only [step] at h
      split at h
      · rename_i x hx
        split at h
        · rename_i hready
          obtain rfl := Option.some.inj h
          have fresh : x.fate = .inFlight := by
            cases hfate : x.fate with
            | inFlight => rfl
            | done _ => simp [hfate, Fate.isInFlight] at hready
          exact .effect hx fresh (by simpa using hready.2)
        · simp at h
      · simp at h
  | reply i r =>
      simp only [step] at h
      split at h
      · rename_i hc
        split at h
        · rename_i htrue
          obtain rfl := Option.some.inj h
          exact .reply hc htrue
        · simp at h
      · simp at h
  | drop i =>
      simp only [step] at h
      split at h
      · rename_i hc
        split at h
        · rename_i hdrop
          obtain rfl := Option.some.inj h
          exact .drop hc hdrop
        · simp at h
      · simp at h
  | tick time =>
      simp only [step] at h
      split at h
      · rename_i hle
        obtain rfl := Option.some.inj h
        exact .tick hle
      · simp at h

/-- A step that is not an effect leaves the table and the log alone. -/
theorem effect_or_quiet {d : Deployment ι δ} {rules : Rules} {s s' : System ι δ} {e : Move ι}
    (h : s.step d rules e = some s') :
    (∃ n x, s.issued[n]? = some x ∧ x.fate = .inFlight ∧ s' = s.execute d n x) ∨
      s'.table = s.table ∧ s'.log = s.log ∧ s.time ≤ s'.time := by
  cases step_cases h with
  | effect hx hfate _ => exact Or.inl ⟨_, _, hx, hfate, rfl⟩
  | acquire _ _ _ =>
      rw [proceed_table, proceed_log, proceed_time]
      exact Or.inr ⟨rfl, rfl, Int.le_refl _⟩
  | extend _ | release _ | reply _ _ =>
      rw [proceed_table, proceed_log, proceed_time]
      exact Or.inr ⟨rfl, rfl, Int.le_refl _⟩
  | purge _ | drop _ _ => exact Or.inr ⟨rfl, rfl, Int.le_refl _⟩
  | tick hle => exact Or.inr ⟨rfl, rfl, hle⟩

/-- Minted tokens stay minted. -/
theorem minted_step {d : Deployment ι δ} {rules : Rules} {s s' : System ι δ} {e : Move ι}
    (h : s.step d rules e = some s') {p : ι × Token} (hp : p ∈ s.minted) : p ∈ s'.minted := by
  cases step_cases h with
  | acquire _ _ _ =>
      rw [proceed_minted]
      exact List.mem_cons_of_mem _ hp
  | extend _ | release _ | reply _ _ =>
      rw [proceed_minted]
      exact hp
  | purge _ | drop _ _ | effect _ _ _ | tick _ => exact hp

theorem reachable_run {d : Deployment ι δ} {rules : Rules} {s s' : System ι δ} {es : List (Move ι)}
    (hs : Reachable d rules s) (h : s.run d rules es = some s') : Reachable d rules s' := by
  induction es generalizing s with
  | nil =>
      obtain rfl := Option.some.inj h
      exact hs
  | cons e es ih =>
      obtain ⟨next, hstep, hrest⟩ := Option.bind_eq_some_iff.mp h
      exact ih (hs.step hstep) hrest

theorem run_append {d : Deployment ι δ} {rules : Rules} (s : System ι δ) (es es' : List (Move ι)) :
    s.run d rules (es ++ es') = (s.run d rules es).bind fun s' => s'.run d rules es' := by
  induction es generalizing s with
  | nil => rfl
  | cons e es ih =>
      show (s.step d rules e).bind _ = ((s.step d rules e).bind _).bind _
      cases s.step d rules e with
      | none => rfl
      | some next => exact ih next

theorem reachable_play {d : Deployment ι δ} {rules : Rules} {s : System ι δ} {es : List (Move ι)}
    (h : play d rules es = some s) : Reachable d rules s :=
  reachable_run (.start 0) h

/-! ## Effects by cases -/

section

omit [DecidableEq ι]

variable {d : Deployment ι δ} {s : System ι δ} {n : Nat} {x : Issued ι}

/-- A statement ran, or failed and left the table alone. -/
theorem execute_cases (d : Deployment ι δ) (s : System ι δ) (n : Nat) (x : Issued ι) :
    (∃ k t', x.request.effect (d.clock.moment s.time) s.table = .ok (k, t') ∧
      s.execute d n x =
        { s with
          table := t'
          issued := s.issued.set n { x with fate := .done (.ok k) }
          log := ⟨x.owner, x.operation, n, s.time, k,
            x.owner.bind fun i => t'.row? (d.key i)⟩ :: s.log }) ∨
    (∃ v, x.request.effect (d.clock.moment s.time) s.table = .error v ∧
      s.execute d n x =
        { s with
          issued := s.issued.set n { x with fate := .done (.error v) }
          log := ⟨x.owner, x.operation, n, s.time, 0,
            x.owner.bind fun i => s.table.row? (d.key i)⟩ :: s.log }) := by
  cases heff : x.request.effect (d.clock.moment s.time) s.table with
  | ok p =>
      refine Or.inl ⟨p.1, p.2, rfl, ?_⟩
      simp [execute, Request.outcome, heff, affectedRows]
  | error v =>
      refine Or.inr ⟨v, rfl, ?_⟩
      simp [execute, Request.outcome, heff, affectedRows]

/-- Every effect settles its statement and is logged. -/
theorem settle_execute (d : Deployment ι δ) (s : System ι δ) (n : Nat) (x : Issued ι) :
    ∃ outcome row, (s.execute d n x).issued = s.issued.set n { x with fate := .done outcome } ∧
      (s.execute d n x).log =
        ⟨x.owner, x.operation, n, s.time, affectedRows outcome, row⟩ :: s.log :=
  ⟨_, _, rfl, rfl⟩

theorem log_execute (d : Deployment ι δ) (s : System ι δ) (n : Nat) (x : Issued ι) :
    ∃ entry, (s.execute d n x).log = entry :: s.log :=
  ⟨_, rfl⟩

@[simp]
theorem execute_clients : (s.execute d n x).clients = s.clients := rfl

@[simp]
theorem execute_minted : (s.execute d n x).minted = s.minted := rfl

@[simp]
theorem execute_time : (s.execute d n x).time = s.time := rfl

end

/-! ## A request that is executed and answered -/

section

variable {d : Deployment ι δ} {rules : Rules} {s : System ι δ} {i : ι} {op : Operation}

theorem step_effect {n : Nat} {x : Issued ι} (hx : s.issued[n]? = some x)
    (hfate : x.fate = .inFlight) (hready : rules.late ∨ ∀ i, x.owner = some i → s.awaits i n) :
    s.step d rules (.effect n) = some (s.execute d n x) := by
  simp only [step, hx, hfate]
  exact if_pos ⟨rfl, hready⟩

omit [DecidableEq ι] in
/-- What a statement that was just issued makes of the system when it takes effect and succeeds. -/
theorem execute_issued {s' : System ι δ} {x : Issued ι} (hx : s'.issued[s.issued.length]? = some x)
    (hissued : s'.issued.length = s.issued.length + 1) (htime : s'.time = s.time)
    (htable : s'.table = s.table) {n : Nat} {t : Table δ}
    (heff : x.request.effect (d.clock.moment s.time) s.table = .ok (n, t)) :
    let executed := s'.execute d s.issued.length x
    executed.issued[s.issued.length]? = some { x with fate := .done (.ok n) } ∧
      executed.table = t ∧ executed.issued.length = s.issued.length + 1 ∧
      executed.log = ⟨x.owner, x.operation, s.issued.length, s.time, n,
        x.owner.bind fun i => t.row? (d.key i)⟩ :: s'.log := by
  obtain ⟨k, t', hk, hexec⟩ | ⟨e, he, -⟩ := execute_cases d s' s.issued.length x
  · rw [htime, htable, heff] at hk
    obtain ⟨rfl, rfl⟩ := Prod.mk.inj (Except.ok.inj hk)
    intro executed
    refine ⟨?_, ?_, ?_, ?_⟩ <;> simp only [executed, hexec]
    · exact List.getElem?_set_self (List.getElem?_eq_some_iff.mp hx).1
    · rw [List.length_set, hissued]
    · rw [htime]
  · rw [htime, htable, heff] at he
    exact absurd he (by simp)

theorem step_acquire {h : Handle} {last : Option (Operation × Except LockError Unit)}
    (hc : s.clients i = .resting h last) {fresh : Token} (hne : fresh ≠ "")
    (hfresh : ∀ p ∈ s.minted, p.2 ≠ fresh) (ttl : Duration) :
    s.step d rules (.acquire i fresh ttl) =
      some (proceed { s with minted := (i, fresh) :: s.minted } i .acquire
        (h.acquire (d.manager i) fresh ttl)) := by
  simp only [step, hc]
  exact if_pos ⟨hne, hfresh⟩

theorem step_drop {n : Nat} {held : Handle} {resume : Reply → Call Handle (Except LockError Unit)}
    (hc : s.clients i = .waiting op n held resume) (hdrops : rules.drops = true) :
    s.step d rules (.drop i) =
      some { s with clients := Function.update s.clients i (.resting held none) } := by
  simp only [step, hc]
  exact if_pos hdrops

theorem step_reply {n : Nat} {held : Handle} {resume : Reply → Call Handle (Except LockError Unit)}
    {reply : Reply} (hc : s.clients i = .waiting op n held resume) (htrue : s.truthful n reply) :
    s.step d rules (.reply i reply) = some (s.proceed i op (resume reply)) := by
  simp only [step, hc]
  exact if_pos fun _ => htrue

/-- A call goes on with the affected rows of its request when this is executed and answered next. -/
theorem run_answered (rules : Rules) (i : ι) (op : Operation) (held : Handle)
    (resume : Reply → Call Handle (Except LockError Unit)) {request : Request} {n : Nat} {t : Table δ}
    (heff : request.effect (d.clock.moment s.time) s.table = .ok (n, t)) :
    ∃ s₁ : System ι δ, (s.proceed i op (.ask request held resume)).run d rules
        [.effect s.issued.length, .reply i (.answered (.ok n))] =
          some (s₁.proceed i op (resume (.answered (.ok n)))) ∧
      s₁.table = t ∧ s₁.minted = s.minted ∧ s₁.time = s.time ∧
      s₁.issued.length = s.issued.length + 1 ∧
      s₁.log = ⟨some i, op, s.issued.length, s.time, n, t.row? (d.key i)⟩ :: s.log := by
  let x : Issued ι := ⟨some i, op, request, .inFlight⟩
  let asked : System ι δ := s.proceed i op (.ask request held resume)
  let executed : System ι δ := asked.execute d s.issued.length x
  -- the statement is the newest one, and the call waits for it
  have issued : asked.issued[s.issued.length]? = some x := List.getElem?_concat_length
  have client : asked.clients i = .waiting op s.issued.length held resume :=
    s.proceed_ask_clients i op request held resume
  have effect : asked.step d rules (.effect s.issued.length) = some executed := by
    refine step_effect issued rfl (Or.inr ?_)
    rintro j hj
    obtain rfl := Option.some.inj hj
    exact awaits_iff.mpr ⟨_, _, _, client⟩
  obtain ⟨hsettled, htable, hissued, hlog⟩ := execute_issued (d := d) issued
    (by simp [asked, proceed, issue]) rfl rfl heff
  have reply : executed.step d rules (.reply i (.answered (.ok n))) =
      some (executed.proceed i op (resume (.answered (.ok n)))) := by
    refine step_reply client ?_
    rw [truthful, hsettled]
    simp [Fate.allows]
  refine ⟨executed, ?_, htable, rfl, rfl, hissued, hlog⟩
  show (asked.step d rules _).bind _ = _
  rw [effect, Option.bind_some, run, reply]
  rfl

/-- An acquisition by one statement that affects a row and is answered next. -/
theorem run_acquire (rules : Rules) {h : Handle} {last : Option (Operation × Except LockError Unit)}
    (hc : s.clients i = .resting h last) {fresh : Token} (hne : fresh ≠ "")
    (hfresh : ∀ p ∈ s.minted, p.2 ≠ fresh) {ttl : Duration} (httl : ttl.isZero = false)
    {claim : Statement} (hplan : (d.manager i).claimPlan = .single claim) {t : Table δ}
    (heff : ((d.manager i).request claim (h.claimValues (h.nextToken fresh) ttl)).effect
      (d.clock.moment s.time) s.table = .ok (1, t)) :
    ∃ s' : System ι δ, s.run d rules
        [.acquire i fresh ttl, .effect s.issued.length, .reply i (.answered (.ok 1))] = some s' ∧
      s'.clients i = .resting { h with token := some (h.nextToken fresh), unconfirmed := none }
        (some (.acquire, .ok ())) ∧
      s'.table = t ∧ s'.minted = (i, fresh) :: s.minted ∧ s'.time = s.time ∧
      s'.issued.length = s.issued.length + 1 ∧
      s'.log = ⟨some i, .acquire, s.issued.length, s.time, 1, t.row? (d.key i)⟩ :: s.log := by
  let minting : System ι δ := { s with minted := (i, fresh) :: s.minted }
  obtain ⟨resume, hacquire, hwon⟩ := h.exists_acquire_single httl hplan fresh
  have hdone := hwon 0
  have started : s.step d rules (.acquire i fresh ttl) =
      some (minting.proceed i .acquire (h.acquire (d.manager i) fresh ttl)) :=
    step_acquire hc hne hfresh ttl
  have heff' : ((d.manager i).request claim (h.claimValues (h.nextToken fresh) ttl)).effect
      (d.clock.moment minting.time) minting.table = .ok (1, t) := heff
  obtain ⟨s₁, hrun, htable, hminted, htime, hissued, hlog⟩ :=
    run_answered rules i .acquire { h with unconfirmed := none } resume heff'
  refine ⟨s₁.proceed i .acquire (resume (.answered (.ok 1))), ?_, ?_, ?_, ?_, ?_, ?_, ?_⟩
  · rw [run, started, Option.bind_some, hacquire]
    exact hrun
  · rw [hdone, proceed_done_clients]
  · rw [proceed_table, htable]
  · rw [proceed_minted, hminted]
  · rw [proceed_time, htime]
  · rw [hdone]
    exact hissued
  · rw [proceed_log, hlog]

end

end System

end LeaseLock
