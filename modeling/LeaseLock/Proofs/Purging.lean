/-
# LeaseLock.Proofs.Purging -- what nobody can see of a purge

A table with purges and one without differ in expired rows alone (`Leases.Purged`), and no call can
tell an expired row from a missing one: a claim may have either place, an extension passes both over.
Only a release can, of a row of its own, which it deletes whatever its deadline. So purges between the
calls of a history change neither the live rows nor the handles nor any result, except that such a
release may report a lost lease.

Each call of a history has one instant of its own, at which all its statements run. On the backends
whose claim is one statement any request or reply may get lost on the way.
-/
import LeaseLock.Proofs.Outcome
import LeaseLock.Proofs.Transcript

namespace LeaseLock

/-! ## Rows that a purge has taken away -/

namespace Leases

section

variable {δ : Type} [LinearOrder δ] {now : δ} {s s' : Leases δ} {v : LeaseValues}

/-- **One table is a purged form of another**: it has the same rows, but for some that have expired. -/
def Purged (now : δ) (s s' : Leases δ) : Prop :=
  ∀ k, s' k = s k ∨ s' k = none ∧ ∃ r, s k = some r ∧ r.deadline ≤ now

theorem Purged.refl (now : δ) (s : Leases δ) : Purged now s s := fun _ => Or.inl rfl

/-- What has expired stays so. -/
theorem Purged.mono {later : δ} (h : Purged now s s') (hle : now ≤ later) : Purged later s s' := by
  intro k
  rcases h k with hsame | ⟨hnone, r, hr, hexpired⟩
  · exact Or.inl hsame
  · exact Or.inr ⟨hnone, r, hr, hexpired.trans hle⟩

/-- A purge more makes no difference. -/
theorem Purged.purge (h : Purged now s s') : Purged now s (s'.purge now) := by
  intro k
  unfold Leases.purge
  rcases h k with hsame | ⟨hnone, r, hr, hexpired⟩
  · rw [hsame]
    cases hrow : s k with
    | none => exact Or.inl rfl
    | some r =>
        by_cases hlive : now < r.deadline
        · exact Or.inl (by simp [Option.filter, hlive])
        · exact Or.inr ⟨by simp [Option.filter, hlive], r, rfl, le_of_not_gt hlive⟩
  · exact Or.inr ⟨by rw [hnone]; rfl, r, hr, hexpired⟩

/-- Both have the same live rows. -/
theorem Purged.live_eq (h : Purged now s s') : s'.purge now = s.purge now := by
  funext k
  unfold Leases.purge
  rcases h k with hsame | ⟨hnone, r, hr, hexpired⟩
  · rw [hsame]
  · rw [hnone, hr]
    simp [Option.filter, hexpired]

theorem Purged.update (h : Purged now s s') (k : String) (place : Option (Row δ)) :
    Purged now (Function.update s k place) (Function.update s' k place) := by
  intro k'
  by_cases hk : k' = k
  · subst hk
    rw [Function.update_self, Function.update_self]
    exact Or.inl rfl
  · rw [Function.update_of_ne hk, Function.update_of_ne hk]
    exact h k'

/-- A claim may have a purged place exactly if it may have the place as it was. -/
theorem Purged.isOpen_eq (h : Purged now s s') (v : LeaseValues) (k : String) :
    isOpen now v (s' k) = isOpen now v (s k) := by
  rcases h k with hsame | ⟨hnone, r, hr, hexpired⟩
  · rw [hsame]
  · rw [hnone, hr]
    simp [isOpen, hexpired]

/-- A live row has not been purged. -/
theorem Purged.eq_of_isLive (h : Purged now s s') {k : String} (hlive : isLive now (s k)) :
    s' k = s k := by
  rcases h k with hsame | ⟨-, r, hr, hexpired⟩
  · exact hsame
  · rw [hr] at hlive
    exact absurd (of_decide_eq_true hlive) (not_lt_of_ge hexpired)

/-- An extension matches a purged place exactly if it matches the place as it was. -/
theorem Purged.matched_eq (h : Purged now s s') (v : LeaseValues) (k : String) :
    (isOwned v (s' k) && isLive now (s' k)) = (isOwned v (s k) && isLive now (s k)) := by
  rcases h k with hsame | ⟨hnone, r, hr, hexpired⟩
  · rw [hsame]
  · rw [hnone, hr]
    simp [isOwned, isLive, hexpired]

/-! ## No operation tells an expired row from a missing one -/

theorem Purged.claim (h : Purged now s s') (d : δ) (v : LeaseValues) :
    (s'.claim now d v).1 = (s.claim now d v).1 ∧
      Purged now (s.claim now d v).2 (s'.claim now d v).2 := by
  unfold Leases.claim
  rw [h.isOpen_eq]
  split
  · exact ⟨rfl, h.update _ _⟩
  · exact ⟨rfl, h⟩

theorem Purged.extend (h : Purged now s s') (d : δ) (v : LeaseValues) :
    (s'.extend now d v).1 = (s.extend now d v).1 ∧
      Purged now (s.extend now d v).2 (s'.extend now d v).2 := by
  unfold Leases.extend
  rw [h.matched_eq]
  split
  · rename_i hmatched
    rw [h.eq_of_isLive (Bool.and_eq_true_iff.mp hmatched).2]
    exact ⟨rfl, h.update _ _⟩
  · exact ⟨rfl, h⟩

theorem Purged.tryClaim (h : Purged now s s') (eager : Bool) (d? : Option δ) (v : LeaseValues) :
    (s'.tryClaim eager now d? v).1 = (s.tryClaim eager now d? v).1 ∧
      Purged now (s.tryClaim eager now d? v).2 (s'.tryClaim eager now d? v).2 := by
  unfold Leases.tryClaim
  cases d? with
  | some d => exact ⟨congrArg Except.ok (h.claim d v).1, (h.claim d v).2⟩
  | none =>
      dsimp only
      rw [h.isOpen_eq]
      exact ⟨rfl, h⟩

theorem Purged.tryExtend (h : Purged now s s') (d? : Option δ) (v : LeaseValues) :
    (s'.tryExtend now d? v).1 = (s.tryExtend now d? v).1 ∧
      Purged now (s.tryExtend now d? v).2 (s'.tryExtend now d? v).2 := by
  unfold Leases.tryExtend
  cases d? with
  | some d => exact ⟨congrArg Except.ok (h.extend d v).1, (h.extend d v).2⟩
  | none =>
      dsimp only
      rw [h.matched_eq]
      exact ⟨rfl, h⟩

/-- **A release does**, and only of a row of its own. -/
theorem Purged.release (h : Purged now s s') (v : LeaseValues) :
    Purged now (s.release v).2 (s'.release v).2 ∧
      ((s'.release v).1 = (s.release v).1 ∨ (s.release v).1 = 1 ∧ (s'.release v).1 = 0 ∧
        ∃ r, s v.key = some r ∧ r.isOwn v ∧ r.deadline ≤ now) := by
  unfold Leases.release
  rcases h v.key with hsame | ⟨hnone, r, hr, hexpired⟩
  · rw [hsame]
    split
    · exact ⟨h.update _ _, Or.inl rfl⟩
    · exact ⟨h, Or.inl rfl⟩
  · have missing : isOwned v (s' v.key) = false := by rw [hnone]; rfl
    have row : isOwned v (s v.key) = r.isOwn v := by rw [hr, isOwned_some]
    cases hown : r.isOwn v with
    | false =>
        simp only [missing, row, hown, Bool.false_eq_true, if_false]
        exact ⟨h, Or.inl trivial⟩
    | true =>
        simp only [missing, row, hown, Bool.false_eq_true, if_false, if_true]
        refine ⟨fun k => ?_, Or.inr ⟨trivial, trivial, r, hr, hown, hexpired⟩⟩
        by_cases hk : k = v.key
        · subst hk
          exact Or.inl (by rw [Function.update_self, hnone])
        · rw [Function.update_of_ne hk]
          exact h k

end

end Leases

/-! ## Histories -/

/-- **How a call reaches the database** and its answer comes back. -/
inductive Transit where
  | answered
  /-- The statement never runs; the caller sees this reply. -/
  | requestLost (reply : Reply) (lost : reply.Lost)
  /-- The statement runs; the caller sees this reply. -/
  | replyLost (reply : Reply) (lost : reply.Lost)

/-- What a handle is asked to do. -/
inductive Errand where
  | acquire (fresh : Token) (ttl : Duration)
  | extend (ttl : Duration)
  | release

/-- The call of an errand. -/
def Errand.call (errand : Errand) (m : Manager) (h : Handle) : Call Handle (Except LockError Unit) :=
  match errand with
  | .acquire fresh ttl => h.acquire m fresh ttl
  | .extend ttl => h.extend m ttl
  | .release => h.release m

/-- **Turn** of a history: a call of a handle, or a purge by its manager. -/
inductive Turn (ι : Type) where
  | call (time : Int) (i : ι) (errand : Errand) (transit : Transit)
  | purge (time : Int) (i : ι) (transit : Transit)

namespace Turn

variable {ι : Type}

def time : Turn ι → Int
  | .call time _ _ _ | .purge time _ _ => time

def isCall : Turn ι → Bool
  | .call _ _ _ _ => true
  | .purge _ _ _ => false

/-- A claim by two statements is answered. -/
def Certain (b : Backend) (table : String) : Turn ι → Prop
  | .call _ _ (.acquire _ _) transit => transit = .answered ∨ ∃ s, b.claim table = .single s
  | _ => True

end Turn

/-- A history without its purges. -/
def unpurged {ι : Type} (history : List (Turn ι)) : List (Turn ι) := history.filter Turn.isCall

/-- The handles and the table between two calls. -/
structure World (ι δ : Type) where
  handles : ι → Handle
  table : Table δ

section

variable {δ : Type} [LinearOrder δ]

/-- What a statement makes of the table at a moment, and what its caller sees. -/
def Transit.serve (transit : Transit) (cause : Violation → Fault) (m : Moment δ) (t : Table δ)
    (r : Request) : Table δ × Reply :=
  match transit with
  | .answered => t.answer cause m r
  | .requestLost reply _ => (t, reply)
  | .replyLost reply _ => ((t.answer cause m r).1, reply)

/-- Every instant can be read. -/
def Clock.Readable (c : Clock δ) : Prop := ∀ time, ∃ now, (c.moment time).now = some now

variable {ι : Type} [DecidableEq ι] (d : Deployment ι δ) (cause : Violation → Fault)

namespace World

/-- Idle handles and an empty table. -/
def start : World ι δ := ⟨fun i => { key := d.key i }, ∅⟩

/-- A call of a handle, and its result. -/
def call (w : World ι δ) (time : Int) (i : ι) (errand : Errand) (transit : Transit) :
    World ι δ × Except LockError Unit :=
  let out := (errand.call (d.manager i) (w.handles i)).run
    (transit.serve cause (d.clock.moment time)) w.table
  (⟨Function.update w.handles i out.2.state, out.1⟩, out.2.result)

/-- A purge by the manager of a handle. -/
def purge (w : World ι δ) (time : Int) (i : ι) (transit : Transit) : World ι δ :=
  { w with
    table := ((d.manager i).purge.run (transit.serve cause (d.clock.moment time)) w.table).1 }

def turn (w : World ι δ) : Turn ι → World ι δ
  | .call time i errand transit => (w.call d cause time i errand transit).1
  | .purge time i transit => w.purge d cause time i transit

/-- The world after a history. -/
def after (history : List (Turn ι)) : World ι δ := history.foldl (turn d cause) (start d)

end World

/-- **A history** up to a time: its turns follow the clock, and claims by two statements are
answered. -/
structure Admissible (history : List (Turn ι)) (time : Int) : Prop where
  ordered : history.Pairwise fun earlier later => earlier.time ≤ later.time
  past : ∀ turn ∈ history, turn.time ≤ time
  certain : ∀ turn ∈ history, turn.Certain d.backend d.table

/-- **The same result**, except that the release of an own lease after its end may report that the
lease is lost. -/
inductive SameResult (now : δ) (h : Handle) (s : Leases δ) :
    Errand → Except LockError Unit → Except LockError Unit → Prop
  | same (errand : Errand) (result : Except LockError Unit) : SameResult now h s errand result result
  | lapsed {r : Row δ} :
      s h.key = some r → r.isOwn (h.ownValues .zero) → r.deadline ≤ now →
      SameResult now h s .release (.ok ()) (.error (.lostLease h.key))

/-- **Purges are unseen**: after any history, the purges leave the live rows and the handles as they
would be without them; the result of the next call is the same; and a purge spares every live row. -/
structure Deployment.PurgesUnseen : Prop where
  state : ∀ history time now, Admissible d history time → (d.clock.moment time).now = some now →
    (World.after d cause history).handles = (World.after d cause (unpurged history)).handles ∧
    Leases.purge (World.after d cause history).table.row? now =
      Leases.purge (World.after d cause (unpurged history)).table.row? now
  result : ∀ history time now i errand transit,
    Admissible d (history ++ [.call time i errand transit]) time →
    (d.clock.moment time).now = some now →
    let w := World.after d cause (unpurged history)
    SameResult now (w.handles i) w.table.row? errand (w.call d cause time i errand transit).2
      ((World.after d cause history).call d cause time i errand transit).2
  spared : ∀ (w : World ι δ) time now i transit k r, (d.clock.moment time).now = some now →
    w.table.row? k = some r → now < r.deadline →
    (w.purge d cause time i transit).table.row? k = some r

end

/-! ## One call -/

section

variable {δ : Type} [LinearOrder δ] {cause : Violation → Fault} {m : Moment δ} {now : δ}
  {t t' : Table δ}

/-- What a driver reports of an outcome. -/
def Reply.telling (cause : Violation → Fault) : Except Violation Nat → Reply
  | .ok n => .answered (.ok n)
  | .error .duplicateKey => .answered (.error (.duplicateKey (cause .duplicateKey)))
  | .error (.notNull column) => .answered (.error (.database (cause (.notNull column))))

theorem Table.answer_eq (r : Request) :
    Table.answer cause m t r = ((r.outcome m t).2, Reply.telling cause (r.outcome m t).1) := by
  unfold answer Request.outcome
  cases r.effect m t with
  | ok p => rfl
  | error e => cases e <;> rfl

variable (cause) in
/-- A statement under way to two tables: what it leaves in them, and what its caller sees. -/
theorem Transit.serve_purged (transit : Transit) {r : Request} {o o' : Except Violation Nat × Leases δ}
    (hdoes : r.Does m t o) (hdoes' : r.Does m t' o') (h : Leases.Purged now t.row? t'.row?)
    (h' : Leases.Purged now o.2 o'.2) :
    Leases.Purged now (transit.serve cause m t r).1.row? (transit.serve cause m t' r).1.row? ∧
      ((transit.serve cause m t' r).2 = (transit.serve cause m t r).2 ∨
        (transit.serve cause m t r).2 = .telling cause o.1 ∧
          (transit.serve cause m t' r).2 = .telling cause o'.1) := by
  have left : (t.answer cause m r).1.row? = o.2 := by rw [Table.answer_eq, hdoes.2]
  have left' : (t'.answer cause m r).1.row? = o'.2 := by rw [Table.answer_eq, hdoes'.2]
  cases transit with
  | answered =>
      refine ⟨?_, Or.inr ⟨?_, ?_⟩⟩
      · show Leases.Purged now (t.answer cause m r).1.row? (t'.answer cause m r).1.row?
        rw [left, left']
        exact h'
      · show (t.answer cause m r).2 = _
        rw [Table.answer_eq, hdoes.1]
      · show (t'.answer cause m r).2 = _
        rw [Table.answer_eq, hdoes'.1]
  | requestLost reply _ => exact ⟨h, Or.inl rfl⟩
  | replyLost reply _ =>
      refine ⟨?_, Or.inl rfl⟩
      show Leases.Purged now (t.answer cause m r).1.row? (t'.answer cause m r).1.row?
      rw [left, left']
      exact h'

/-- A call that needs one answer ends with what it makes of it. -/
theorem Call.exists_finish {σ α : Type} {r : Request} (held : σ) {resume : Reply → Call σ α}
    (hdone : ∀ reply, (resume reply).IsDone) :
    ∃ finish : Reply → Call.Finished σ α, (∀ reply, resume reply =
        .done (finish reply).state (finish reply).result (finish reply).events) ∧
      ∀ {ω : Type} (serve : ω → Request → ω × Reply) (w : ω),
        (Call.ask r held resume).run serve w = ((serve w r).1, finish (serve w r).2) := by
  have ended : ∀ reply, ∃ f : Call.Finished σ α, resume reply = .done f.state f.result f.events := by
    intro reply
    have isDone := hdone reply
    cases hreply : resume reply with
    | done state result events => exact ⟨⟨state, result, events⟩, rfl⟩
    | ask r held resume =>
        rw [hreply] at isDone
        exact absurd isDone id
  choose finish hfinish using ended
  refine ⟨finish, hfinish, fun serve t => ?_⟩
  simp only [Call.run, hfinish]

/-- **Two runs of a call**, in a table and in a purged form of it. -/
structure Alike (now : δ) (out out' : Table δ × Call.Finished Handle (Except LockError Unit)) :
    Prop where
  rows : Leases.Purged now out.1.row? out'.1.row?
  finished : out'.2 = out.2

/-- A call of one request that comes to the same outcome in both tables. -/
theorem Transit.alike (transit : Transit) {r : Request} {held : Handle}
    {resume : Reply → Call Handle (Except LockError Unit)}
    (hdone : ∀ reply, (resume reply).IsDone) {o o' : Except Violation Nat × Leases δ}
    (hdoes : r.Does m t o) (hdoes' : r.Does m t' o') (h : Leases.Purged now t.row? t'.row?)
    (hsame : o'.1 = o.1) (h' : Leases.Purged now o.2 o'.2) :
    Alike now ((Call.ask r held resume).run (transit.serve cause m) t)
      ((Call.ask r held resume).run (transit.serve cause m) t') := by
  obtain ⟨finish, -, hrun⟩ := Call.exists_finish (r := r) held hdone
  obtain ⟨hrows, hreply⟩ := transit.serve_purged cause hdoes hdoes' h h'
  rw [hrun, hrun]
  refine ⟨hrows, congrArg finish ?_⟩
  rcases hreply with hsame | ⟨htold, htold'⟩
  · exact hsame
  · rw [htold, htold', hsame]

namespace Handle

variable (h : Handle) (M : Manager) (transit : Transit) (fresh : Token) (ttl : Duration)

/-- **Acquisitions are alike** in a table and in a purged form of it. -/
theorem acquire_alike (hs : M.dialect.backend.shadows M.tableName = false)
    (hcertain : transit = .answered ∨ ∃ s, M.claimPlan = .single s) (hnow : m.now = some now)
    (hP : Leases.Purged now t.row? t'.row?) :
    Alike now ((h.acquire M fresh ttl).run (transit.serve cause m) t)
      ((h.acquire M fresh ttl).run (transit.serve cause m) t') := by
  cases httl : ttl.isZero with
  | true =>
      rw [h.acquire_of_isZero httl]
      exact ⟨hP, rfl⟩
  | false =>
      obtain ⟨next, hacquire, hdone⟩ := h.exists_acquire_isDone httl M fresh
      rw [hacquire]
      generalize h.claimValues (h.nextToken fresh) ttl = v
      generalize ({ h with unconfirmed := none } : Handle) = held
      cases hplan : M.claimPlan with
      | single s =>
          have does := Backend.single_does (v := v) M.timeout t hplan hs hnow
          have does' := Backend.single_does (v := v) M.timeout t' hplan hs hnow
          obtain ⟨hverdict, hrows⟩ := hP.tryClaim M.dialect.backend.eager
            (m.after (M.dialect.backend.boundTtl v.ttl)) v
          rw [Manager.claim, hplan]
          exact transit.alike (fun reply => hdone _) does does' hP
            (congrArg (Except.map Bool.toNat) hverdict) hrows
      | updateThenInsert update insert =>
          have answered : transit = .answered := by
            rcases hcertain with hanswered | ⟨s, hsingle⟩
            · exact hanswered
            · exact absurd (hplan.symm.trans hsingle) (by simp)
          subst answered
          obtain ⟨w, hrun, hw⟩ := Manager.twoStep_becomes (v := v) t cause held next hplan hnow
          obtain ⟨w', hrun', hw'⟩ := Manager.twoStep_becomes (v := v) t' cause held next
            hplan hnow
          obtain ⟨hverdict, hrows⟩ := hP.tryClaim true
            (m.after (M.dialect.backend.boundTtl v.ttl)) v
          rw [hverdict] at hrun'
          have run : ∀ t : Table δ, (M.claim v held next).run (Transit.answered.serve cause m) t =
              (M.claim v held next).run (Table.answer cause m) t := fun _ => rfl
          rw [run, run, hrun, hrun']
          have isDone := hdone (verdict cause
            (Leases.tryClaim t.row? true now (m.after (M.dialect.backend.boundTtl v.ttl)) v).1)
          cases hnext : next (verdict cause
              (Leases.tryClaim t.row? true now (m.after (M.dialect.backend.boundTtl v.ttl)) v).1) with
          | done state result events =>
              refine ⟨?_, rfl⟩
              show Leases.Purged now w.row? w'.row?
              rw [hw, hw']
              exact hrows
          | ask r held resume =>
              rw [hnext] at isDone
              exact absurd isDone id

/-- **Extensions are alike.** -/
theorem extend_alike (hnow : m.now = some now) (hP : Leases.Purged now t.row? t'.row?) :
    Alike now ((h.extend M ttl).run (transit.serve cause m) t)
      ((h.extend M ttl).run (transit.serve cause m) t') := by
  unfold extend
  split
  · exact ⟨hP, rfl⟩
  split
  · exact ⟨hP, rfl⟩
  · obtain ⟨hcount, hrows⟩ := hP.tryExtend
      (m.after (M.dialect.backend.boundTtl (h.ownValues ttl).ttl)) (h.ownValues ttl)
    have does := Backend.extend_does (v := h.ownValues ttl) M.timeout t M.dialect.backend M.tableName
      hnow
    have does' := Backend.extend_does (v := h.ownValues ttl) M.timeout t' M.dialect.backend
      M.tableName hnow
    refine transit.alike (fun reply => ?_) does does' hP hcount hrows
    dsimp only
    split <;> trivial

/-- **Releases are alike**, except that one may delete an own row after its end where the other finds
none. -/
theorem release_alike (hP : Leases.Purged now t.row? t'.row?) :
    let out := (h.release M).run (transit.serve cause m) t
    let out' := (h.release M).run (transit.serve cause m) t'
    Leases.Purged now out.1.row? out'.1.row? ∧ out'.2.state = out.2.state ∧
      SameResult now h t.row? .release out.2.result out'.2.result := by
  intro out out'
  cases hidle : h.isIdle with
  | true =>
      simp only [out, out', h.release_of_isIdle hidle, Call.run]
      exact ⟨hP, trivial, .same _ _⟩
  | false =>
      let v : LeaseValues := h.ownValues .zero
      obtain ⟨next, hsend, hmissed, hfound, hfailed⟩ := h.exists_release_answers hidle M
      have hrelease : h.release M = .ask (M.request M.releaseStatement v) h
          fun reply => next reply.rows := hsend
      have hdone : ∀ reply : Reply, (next reply.rows).IsDone := by
        intro reply
        rcases reply.rows with e | _ | n
        · rw [hfailed]
          trivial
        · rw [hmissed]
          trivial
        · rw [hfound]
          trivial
      obtain ⟨finish, hfinish, hrun⟩ := Call.exists_finish
        (r := M.request M.releaseStatement v) h hdone
      obtain ⟨hrows, hcount⟩ := hP.release v
      have does : ∀ t : Table δ, (M.request M.releaseStatement v).Does m t
          (.ok (Leases.release t.row? v).1, (Leases.release t.row? v).2) :=
        fun t => Backend.release_does M.timeout t M.dialect.backend M.tableName
      obtain ⟨hleft, hreply⟩ := transit.serve_purged cause (does t) (does t')
        hP hrows
      simp only [out, out', hrelease, hrun]
      refine ⟨hleft, ?_⟩
      rcases hreply with hsame | ⟨htold, htold'⟩
      · rw [hsame]
        exact ⟨rfl, .same _ _⟩
      · rw [htold, htold']
        rcases hcount with hequal | ⟨hone, hzero, r, hr, hown, hexpired⟩
        · rw [hequal]
          exact ⟨rfl, .same _ _⟩
        · -- the row of an own lease that has expired is there in one table only
          have found := (hfinish (.answered (.ok 1))).symm.trans (hfound 0)
          have missed := (hfinish (.answered (.ok 0))).symm.trans hmissed
          rw [hone, hzero]
          obtain ⟨hstate, hresult, -⟩ := Call.done.inj found
          obtain ⟨hstate', hresult', -⟩ := Call.done.inj missed
          simp only [Reply.telling, hstate, hstate', hresult, hresult']
          exact ⟨trivial, .lapsed hr hown hexpired⟩

end Handle

variable (cause) in
/-- **A call is alike** in a table and in a purged form of it. -/
theorem Errand.alike (errand : Errand) (transit : Transit) (h : Handle) {M : Manager}
    (hs : M.dialect.backend.shadows M.tableName = false)
    (hcertain : ∀ fresh ttl, errand = .acquire fresh ttl →
      transit = .answered ∨ ∃ s, M.claimPlan = .single s)
    (hnow : m.now = some now) (hP : Leases.Purged now t.row? t'.row?) :
    let out := (errand.call M h).run (transit.serve cause m) t
    let out' := (errand.call M h).run (transit.serve cause m) t'
    Leases.Purged now out.1.row? out'.1.row? ∧ out'.2.state = out.2.state ∧
      SameResult now h t.row? errand out.2.result out'.2.result := by
  intro out out'
  have through : Alike now out out' → Leases.Purged now out.1.row? out'.1.row? ∧
      out'.2.state = out.2.state ∧ SameResult now h t.row? errand out.2.result out'.2.result := by
    rintro ⟨hrows, hfinished⟩
    rw [hfinished]
    exact ⟨hrows, rfl, .same _ _⟩
  cases errand with
  | acquire fresh ttl =>
      exact through (h.acquire_alike M transit fresh ttl hs (hcertain fresh ttl rfl) hnow hP)
  | extend ttl => exact through (h.extend_alike M transit ttl hnow hP)
  | release => exact h.release_alike M transit hP

variable (cause) in
/-- A purge leaves the rows that are live, or all rows if its request gets lost. -/
theorem Transit.purge_row? (transit : Transit) (M : Manager) (hnow : m.now = some now) (t : Table δ) :
    (M.purge.run (transit.serve cause m) t).1.row? = t.row? ∨
      (M.purge.run (transit.serve cause m) t).1.row? = Leases.purge t.row? now := by
  let v : LeaseValues := ⟨"", "", "", "", .zero⟩
  obtain ⟨resume, hpurge, hdone⟩ : ∃ resume, M.purge = .ask (M.request M.purgeStatement v) () resume ∧
      ∀ reply, (resume reply).IsDone := by
    unfold Manager.purge
    refine ⟨_, rfl, fun reply => ?_⟩
    dsimp only
    split <;> trivial
  obtain ⟨finish, -, hrun⟩ := Call.exists_finish (r := M.request M.purgeStatement v) ()
    hdone
  have does : (M.request M.purgeStatement v).Does m t _ :=
    Backend.purge_does M.timeout t M.dialect.backend M.tableName hnow
  have left : (t.answer cause m (M.request M.purgeStatement v)).1.row? = Leases.purge t.row? now := by
    rw [Table.answer_eq, does.2]
  rw [hpurge, hrun]
  cases transit with
  | answered => exact Or.inr left
  | requestLost reply _ => exact Or.inl rfl
  | replyLost reply _ => exact Or.inr left

end

/-! ## Whole histories -/

section

variable {ι δ : Type} [DecidableEq ι] [LinearOrder δ] {d : Deployment ι δ}
  {cause : Violation → Fault} {w w' : World ι δ} {time : Int} {now : δ} {i : ι}

/-- **The invariant of two histories**: the same handles, and a table that is a purged form of the
other. -/
structure Related (now : δ) (w w' : World ι δ) : Prop where
  handles : w'.handles = w.handles
  rows : Leases.Purged now w.table.row? w'.table.row?

omit [DecidableEq ι] in
theorem Related.refl (now : δ) (w : World ι δ) : Related now w w := ⟨rfl, .refl now _⟩

omit [DecidableEq ι] in
theorem Related.mono {later : δ} (h : Related now w w') (hle : now ≤ later) : Related later w w' :=
  ⟨h.handles, h.rows.mono hle⟩

/-- **A call keeps the invariant** and has the same result in both worlds. -/
theorem Related.call (h : Related now w w') (hb : d.backend.shadows d.table = false)
    (hnow : (d.clock.moment time).now = some now) {errand : Errand} {transit : Transit}
    (hcertain : (Turn.call time i errand transit).Certain d.backend d.table) :
    Related now (w.call d cause time i errand transit).1 (w'.call d cause time i errand transit).1 ∧
      SameResult now (w.handles i) w.table.row? errand (w.call d cause time i errand transit).2
        (w'.call d cause time i errand transit).2 := by
  have plain : (d.manager i).dialect.backend.shadows (d.manager i).tableName = false := by
    rw [d.backend_eq, d.table_eq, hb]
  have plans : ∀ fresh ttl, errand = .acquire fresh ttl →
      transit = .answered ∨ ∃ s, (d.manager i).claimPlan = .single s := by
    rintro fresh ttl rfl
    rw [Manager.claimPlan, d.backend_eq, d.table_eq]
    exact hcertain
  have same : w'.handles i = w.handles i := congrFun h.handles i
  obtain ⟨hrows, hstate, hresult⟩ := errand.alike cause transit (w.handles i) plain plans
    hnow h.rows
  unfold World.call
  rw [same]
  refine ⟨⟨?_, hrows⟩, hresult⟩
  dsimp only
  rw [h.handles, hstate]

variable (cause) in
omit [DecidableEq ι] in
/-- **A purge keeps the invariant.** -/
theorem Related.purge (h : Related now w w') (hnow : (d.clock.moment time).now = some now)
    (transit : Transit) : Related now w (w'.purge d cause time i transit) := by
  have rows := transit.purge_row? cause (d.manager i) hnow w'.table
  refine ⟨h.handles, ?_⟩
  unfold World.purge
  dsimp only
  rcases rows with hsame | hpurged
  · rw [hsame]
    exact h.rows
  · rw [hpurged]
    exact h.rows.purge

omit [DecidableEq ι] in
/-- A history up to a time is one up to its last turn, and up to that turn without it. -/
theorem Admissible.init {history : List (Turn ι)} {turn : Turn ι}
    (h : Admissible d (history ++ [turn]) time) :
    Admissible d history turn.time ∧ turn.time ≤ time ∧ turn.Certain d.backend d.table := by
  have last : turn ∈ history ++ [turn] := List.mem_append_right history (List.mem_singleton_self turn)
  obtain ⟨ordered, -, before⟩ := List.pairwise_append.mp h.ordered
  refine ⟨⟨ordered, fun earlier hearlier => ?_, fun earlier hearlier => ?_⟩, h.past turn last,
    h.certain turn last⟩
  · exact before earlier hearlier turn (List.mem_singleton_self turn)
  · exact h.certain earlier (List.mem_append_left [turn] hearlier)

theorem World.after_append (history : List (Turn ι)) (turn : Turn ι) :
    World.after d cause (history ++ [turn]) = (World.after d cause history).turn d cause turn :=
  List.foldl_concat ..

variable (cause) in
/-- **The invariant holds after every history.** -/
theorem Admissible.related (hb : d.backend.shadows d.table = false) (hread : d.clock.Readable)
    {history : List (Turn ι)} (h : Admissible d history time)
    (hnow : (d.clock.moment time).now = some now) :
    Related now (World.after d cause (unpurged history)) (World.after d cause history) := by
  induction history using List.reverseRecOn generalizing time now with
  | nil => exact .refl now _
  | append_singleton history turn ih =>
      obtain ⟨before, hle, hcertain⟩ := h.init
      obtain ⟨earlier, hearlier⟩ := hread turn.time
      have related := ih before hearlier
      refine Related.mono ?_ (d.clock.steady hle hearlier hnow)
      rw [World.after_append]
      cases turn with
      | call time' i errand transit =>
          rw [show unpurged (history ++ [.call time' i errand transit]) =
            unpurged history ++ [.call time' i errand transit] from List.filter_append ..,
            World.after_append]
          exact (related.call hb hearlier hcertain).1
      | purge time' i transit =>
          rw [show unpurged (history ++ [.purge time' i transit]) = unpurged history from
            (List.filter_append ..).trans (List.append_nil _)]
          exact related.purge cause hearlier transit

theorem Deployment.purgesUnseen (hb : d.backend.shadows d.table = false)
    (hread : d.clock.Readable) (cause : Violation → Fault) : d.PurgesUnseen cause where
  state history time now h hnow := by
    have related := h.related cause hb hread hnow
    exact ⟨related.handles, related.rows.live_eq⟩
  result history time now i errand transit h hnow := by
    obtain ⟨before, -, hcertain⟩ := h.init
    exact ((before.related cause hb hread hnow).call hb hnow hcertain).2
  spared w time now i transit k r hnow hr hlive := by
    have related := (Related.refl now w).purge cause (i := i) hnow transit
    have kept := related.rows.eq_of_isLive (k := k) (by rw [hr]; exact decide_eq_true hlive)
    rw [kept, hr]

end

/-! ## A table that shadows the proposed row -/

/-- One handle claims the key for ten ticks, the table is purged after that, and another handle claims
the key. -/
def purgedBetween : List (Turn Duellist) :=
  [.call 0 .holder (.acquire "A" ⟨10000⟩) .answered, .purge 10 .holder .answered,
    .call 10 .rival (.acquire "B" ⟨10000⟩) .answered]

theorem admissible_purgedBetween (d : Deployment Duellist Int) :
    Admissible d purgedBetween 10 := by
  refine ⟨by simp [purgedBetween, Turn.time], ?_, ?_⟩
  · intro turn hturn
    simp only [purgedBetween, List.mem_cons, List.not_mem_nil, or_false] at hturn
    rcases hturn with rfl | rfl | rfl <;> decide
  · intro turn hturn
    simp only [purgedBetween, List.mem_cons, List.not_mem_nil, or_false] at hturn
    rcases hturn with rfl | rfl | rfl
    · exact Or.inl rfl
    · trivial
    · exact Or.inl rfl

/-- An answered acquisition by one statement that counts. -/
theorem World.call_acquire {d : Deployment Duellist Int} {cause : Violation → Fault}
    {w : World Duellist Int} {time : Int} {i : Duellist} {fresh : Token} {claim : Statement}
    (hplan : (d.manager i).claimPlan = .single claim) {h : Handle} (hh : w.handles i = h)
    {t : Table Int} (heff : ((d.manager i).request claim
      (h.claimValues (h.nextToken fresh) ⟨10000⟩)).effect (d.clock.moment time) w.table = .ok (1, t)) :
    (w.call d cause time i (.acquire fresh ⟨10000⟩) .answered).1 =
      ⟨Function.update w.handles i { h with token := some (h.nextToken fresh), unconfirmed := none },
        t⟩ := by
  obtain ⟨resume, hacquire, hwon⟩ :=
    h.exists_acquire_single (by rfl : Duration.isZero ⟨10000⟩ = false) hplan fresh
  unfold World.call
  simp only [Errand.call, hh, hacquire, Call.run, Transit.serve, Table.answer_ok heff, hwon 0]

/-- With the purge the claim of the other handle stands; without it the old row does, which has
expired. -/
theorem live_of_shadows {table : String} (h : Sqlite.Database.shadowsProposal table)
    (cause : Violation → Fault) :
    Leases.purge (World.after (.duel .sqlite table) cause purgedBetween).table.row? 10 "job" =
        some ⟨"job", "B", 20⟩ ∧
      Leases.purge (World.after (.duel .sqlite table) cause (unpurged purgedBetween)).table.row? 10 "job" =
        none := by
  let d : Deployment Duellist Int := .duel .sqlite table
  let idle : Handle := { key := "job" }
  have plan : ∀ i, (d.manager i).claimPlan = .single (sqliteClaim table) := fun _ => rfl
  -- the three claims: on a free key, on a row that has expired, and on the key when it has been purged
  have first : ((d.manager .holder).request (sqliteClaim table) ⟨"job", "A", "", "A", ⟨10000⟩⟩).effect
      (d.clock.moment 0) ∅ = .ok (1, System.claimedOnce) :=
    (sqliteClaim_effect h _ _ _ _ rfl).trans rfl
  have second : ((d.manager .rival).request (sqliteClaim table) ⟨"job", "B", "", "B", ⟨10000⟩⟩).effect
      (d.clock.moment 10) System.claimedOnce = .ok (1, System.claimedOnce) :=
    (sqliteClaim_effect h _ _ _ _ rfl).trans rfl
  have third : ((d.manager .rival).request (sqliteClaim table) ⟨"job", "B", "", "B", ⟨10000⟩⟩).effect
      (d.clock.moment 10) ∅ =
        .ok (1, (((∅ : Table Int).insert? ⟨"job", "B", 20⟩).getD ∅)) :=
    (sqliteClaim_effect h _ _ _ _ rfl).trans rfl
  let held : World Duellist Int := ⟨Function.update (World.start d).handles .holder
    { key := "job", token := some "A" }, System.claimedOnce⟩
  have claimed : ((World.start d).call d cause 0 .holder (.acquire "A" ⟨10000⟩) .answered).1 = held :=
    World.call_acquire (plan _) (h := idle) rfl first
  have purged : held.purge d cause 10 .holder .answered = ⟨held.handles, ∅⟩ := rfl
  have taken : (World.call d cause ⟨held.handles, ∅⟩ 10 .rival (.acquire "B" ⟨10000⟩) .answered).1 = _ :=
    World.call_acquire (plan _) (h := idle) rfl third
  have counted : (held.call d cause 10 .rival (.acquire "B" ⟨10000⟩) .answered).1 = _ :=
    World.call_acquire (plan _) (h := idle) rfl second
  constructor
  · show Leases.purge (World.call d cause (World.purge d cause (World.call d cause (World.start d) 0
      .holder (.acquire "A" ⟨10000⟩) .answered).1 10 .holder .answered) 10 .rival
        (.acquire "B" ⟨10000⟩) .answered).1.table.row? 10 "job" = _
    rw [claimed, purged, taken]
    rfl
  · show Leases.purge (World.call d cause (World.call d cause (World.start d) 0 .holder
      (.acquire "A" ⟨10000⟩) .answered).1 10 .rival (.acquire "B" ⟨10000⟩) .answered).1.table.row? 10
        "job" = _
    rw [claimed, counted]
    rfl

/-- **Purges are unseen** in every deployment on a table whose clock can be read, whatever its drivers
report, exactly if the table does not shadow the proposed row of a claim. -/
theorem purgesUnseen_iff_not_shadows (b : Backend) (table : String) :
    (∀ (ι δ : Type) [DecidableEq ι] [LinearOrder δ] (d : Deployment ι δ), d.backend = b →
      d.table = table → d.clock.Readable → ∀ cause, d.PurgesUnseen cause) ↔
        b.shadows table = false := by
  constructor
  · intro h
    by_contra hshadows
    obtain ⟨hb, hname⟩ : b = .sqlite ∧ Sqlite.Database.shadowsProposal table := by
      simpa [Backend.shadows] using hshadows
    let d : Deployment Duellist Int := .duel .sqlite table
    have readable : d.clock.Readable := fun time => ⟨time, rfl⟩
    have unseen := h Duellist Int d hb.symm rfl readable fun _ => .bare ""
    obtain ⟨-, hlive⟩ := unseen.state purgedBetween 10 10 (admissible_purgedBetween d) rfl
    obtain ⟨hwith, hwithout⟩ := live_of_shadows hname fun _ => .bare ""
    have rows := congrFun hlive "job"
    rw [hwith, hwithout] at rows
    exact absurd rows (by simp)
  · rintro hb ι δ _ _ d rfl rfl readable cause
    exact d.purgesUnseen hb readable cause

/-- Two instants for one claim would be another matter. Where the update of a claim by two statements
finds an expired row, it sets the deadline; where the row has been purged, the insert does, a tick
later here. -/
example (cause : Violation → Fault) :
    let lapsed : Table Int := ((∅ : Table Int).insert? ⟨"job", "A", 10⟩).getD ∅
    let moments : Stream' (Moment Int) := fun n => Clock.integral.moment (10 + n)
    let claim := ({ key := "job" } : Handle).acquire ⟨.mysql, "locks", none⟩ "B" ⟨10000⟩
    (claim.run (Solo.serve cause) ⟨moments, lapsed⟩).1.rows "job" = some ⟨"job", "B", 20⟩ ∧
      (claim.run (Solo.serve cause) ⟨moments, ∅⟩).1.rows "job" = some ⟨"job", "B", 21⟩ :=
  ⟨rfl, rfl⟩

/-- The one difference: what the release of a lease reports after its end. -/
example (cause : Violation → Fault) :
    let d : Deployment Duellist Int := .duel .postgres "locks"
    let claimed : Turn Duellist := .call 0 .holder (.acquire "A" ⟨10000⟩) .answered
    let purged : Turn Duellist := .purge 15 .rival .answered
    ((World.after d cause [claimed]).call d cause 20 .holder .release .answered).2 = .ok () ∧
      ((World.after d cause [claimed, purged]).call d cause 20 .holder .release .answered).2 =
        .error (.lostLease "job") :=
  ⟨rfl, rfl⟩

end LeaseLock
